import MetaBlocks.Catalog.Yaml
import MetaBlocks.Command.Help
import MetaBlocks.Command.Invocation
import MetaBlocks.Log.Filter
import MetaBlocks.Report.Json
import MetaBlocks.Report.Text
import MetaBlocks.Settings.Yaml

/-!
The program: from arguments, environment and files to what it prints.
-/

set_option autoImplicit false
set_option relaxedAutoImplicit false

namespace MetaBlocks.Command

structure Environment where
  config : Option (List Char) := none
  log : Option (List Char) := none
  commonLog : Option (List Char) := none
  deriving DecidableEq, Repr, Inhabited

def Environment.read {m : Type → Type} [Monad m] (value : String → m (Option (List Char))) :
    m Environment := do
  return {
    config := ← value "QUILL_META_CONFIG"
    log := ← value "QUILL_META_LOG"
    commonLog := ← value "RUST_LOG" }

inductive Failure where
  | config (path : List Char) (error : LoadError)
  | catalog (path : List Char) (error : LoadError)
  | document (path : List Char) (failure : ReadFailure)
  | reversedViewport (v : Extent)
  deriving DecidableEq, Repr, Inhabited

/-- The failure in words, from the outside in. -/
def Failure.message : Failure → List Char
  | config p e => "failed to load config ".toList ++ p ++ ':' :: ' ' :: e.chain
  | catalog p e => "failed to load catalog ".toList ++ p ++ ':' :: ' ' :: e.chain
  | document p f => "failed to read ".toList ++ p ++ ':' :: ' ' :: f.message.toList
  | reversedViewport v =>
    "viewport start ".toList ++ Text.decimal v.start ++ " is after its end ".toList ++
      Text.decimal v.stop

inductive Outcome where
  | success (output : List Char) (log : List (List Char))
  | failure (f : Failure) (log : List (List Char))
  | usage (e : UsageError)
  deriving DecidableEq, Repr, Inhabited

namespace Outcome

def exitCode : Outcome → UInt32
  | success _ _ => 0
  | failure _ _ => 1
  | usage _ => 2

def output : Outcome → List Char
  | success s _ => s
  | _ => []

def complaints : Outcome → List (List Char)
  | success _ log => log
  | failure f log => log ++ ["Error: ".toList ++ f.message]
  | usage e => ["error: ".toList ++ e.message]

end Outcome

namespace Invocation

def paths (i : Invocation) : List (List Char) := i.config.toList ++ i.catalog.toList ++ [i.file]

def settings (i : Invocation) (read : List Char → FileBytes) : Except Failure Settings :=
  match i.config with
  | some p => (Settings.ofFile (read p)).mapError (.config p)
  | none => .ok {}

def templates (i : Invocation) (read : List Char → FileBytes) : Except Failure Catalog :=
  match i.catalog with
  | some p => (Catalog.ofFile (read p)).mapError (.catalog p)
  | none => .ok []

def render (i : Invocation) (r : Report) : List Char :=
  match i.format with
  | .text => r.toText
  | .json => r.toJson.pretty 0 ++ ['\n']

/-- What an inspection prints, and its events. -/
def inspect (i : Invocation) (read : List Char → FileBytes) :
    Except Failure (List Char × List LogEvent) := do
  let settings ← i.settings read
  let catalog ← i.templates read
  let text ← (read i.file).text.mapError (.document i.file)
  let d := Document.ofText text
  match i.viewport with
  | some v => if v.stop < v.start then throw (.reversedViewport v)
  | none => pure ()
  let request := { viewport := i.viewport, foldLine := i.fold, cursor := i.complete, catalog }
  let (r, _) := Report.build { settings } d request
  return (i.render r, LogEvent.ofReport i.file settings.detection d r)

end Invocation

def run (args : List (List Char)) (env : Environment) (read : List Char → FileBytes) : Outcome :=
  match Invocation.ofArguments args env.config with
  | .error (.usage e) => .usage e
  | .error .help => .success (helpText (env.config.getD [])) []
  | .error .version => .success versionText.toList []
  | .ok i =>
    let filter := LogFilter.ofVariables env.log env.commonLog
    match i.inspect read with
    | .ok (output, events) => .success output (filter.lines events)
    | .error f => .failure f (filter.lines [])

end MetaBlocks.Command
