import MetaBlocks.Command.Viewport

/-!
The arguments of the program. They are read from left to right. The value of an option, or the file,
is looked at only when the next option is met or the arguments end; an argument that nobody
expects is told of at once.
-/

set_option autoImplicit false
set_option relaxedAutoImplicit false

namespace MetaBlocks.Command

inductive Format where
  | text
  | json
  deriving DecidableEq, Repr, Inhabited

/-- An option that takes a value. -/
inductive Flag where
  | config
  | catalog
  | viewport
  | fold
  | complete
  | format
  deriving DecidableEq, Repr, Inhabited

namespace Flag

def all : List Flag := [config, catalog, viewport, fold, complete, format]

def name : Flag → String
  | config => "config"
  | catalog => "catalog"
  | viewport => "viewport"
  | fold => "fold"
  | complete => "complete"
  | format => "format"

def usage (f : Flag) : List Char :=
  "--".toList ++ f.name.toList ++ " <".toList ++ f.name.toList.map Char.toUpper ++ ['>']

end Flag

def fileUsage : List Char := "<FILE>".toList

inductive UsageError where
  | unexpectedArgument (arg : List Char)
  | unexpectedValue (value arg : List Char)
  | missingValue (arg : List Char)
  | repeated (arg : List Char)
  | invalidValue (value arg : List Char) (reason : Option (List Char))
  | missingFile
  deriving DecidableEq, Repr, Inhabited

def UsageError.message : UsageError → List Char
  | unexpectedArgument a => "unexpected argument '".toList ++ a ++ "' found".toList
  | unexpectedValue v a =>
    "unexpected value '".toList ++ v ++ "' for '".toList ++ a ++
      "' found; no more were expected".toList
  | missingValue a => "a value is required for '".toList ++ a ++ "' but none was supplied".toList
  | repeated a => "the argument '".toList ++ a ++ "' cannot be used multiple times".toList
  | invalidValue v a reason =>
    "invalid value '".toList ++ v ++ "' for '".toList ++ a ++ '\'' :: match reason with
      | some r => ':' :: ' ' :: r
      | none => []
  | missingFile => "the following required arguments were not provided:".toList

structure Invocation where
  file : List Char
  config : Option (List Char) := none
  catalog : Option (List Char) := none
  viewport : Option Extent := none
  fold : Option Nat := none
  complete : Option Nat := none
  format : Format := .text
  deriving DecidableEq, Repr, Inhabited

/-- Why reading the arguments ends early. -/
inductive Stop where
  | usage (e : UsageError)
  | help
  | version
  deriving DecidableEq, Repr, Inhabited

/-- What was read and not yet looked at. -/
inductive Pending where
  | nothing
  | file (path : List Char)
  | flag (f : Flag) (value : Option (List Char))
  deriving DecidableEq, Repr, Inhabited

/-- What is known after some arguments. -/
structure Draft where
  file : Option (List Char) := none
  config : Option (List Char) := none
  catalog : Option (List Char) := none
  viewport : Option Extent := none
  fold : Option Nat := none
  complete : Option Nat := none
  format : Option Format := none
  pending : Pending := .nothing
  /-- After a pair of dashes every argument is a file. -/
  filesOnly : Bool := false
  deriving DecidableEq, Repr, Inhabited

namespace Draft

def path (arg value : List Char) : Except UsageError (List Char) :=
  if value.isEmpty then .error (.missingValue arg) else .ok value

def number (arg value : List Char) : Except UsageError Nat :=
  (Number.Decimal.read value).mapError fun e => .invalidValue value arg (some e.message.toList)

def formatNamed (arg value : List Char) : Except UsageError Format :=
  if value = "text".toList then .ok .text
  else if value = "json".toList then .ok .json
  else if value.isEmpty then .error (.missingValue arg)
  else .error (.invalidValue value arg none)

def has (d : Draft) : Flag → Bool
  | .config => d.config.isSome
  | .catalog => d.catalog.isSome
  | .viewport => d.viewport.isSome
  | .fold => d.fold.isSome
  | .complete => d.complete.isSome
  | .format => d.format.isSome

/-- The draft with the value of an option, which must be the first. -/
def assign (d : Draft) (f : Flag) (value : List Char) : Except UsageError Draft := do
  if d.has f then throw (.repeated f.usage)
  match f with
  | .config => return { d with config := some (← path f.usage value) }
  | .catalog => return { d with catalog := some (← path f.usage value) }
  | .viewport =>
    let v ← (Viewport.read value).mapError fun e => .invalidValue value f.usage (some e.message)
    return { d with viewport := some v }
  | .fold => return { d with fold := some (← number f.usage value) }
  | .complete => return { d with complete := some (← number f.usage value) }
  | .format => return { d with format := some (← formatNamed f.usage value) }

def settle (d : Draft) : Except UsageError Draft :=
  let rest := { d with pending := .nothing }
  match d.pending with
  | .nothing => .ok d
  | .file p => do return { rest with file := some (← path fileUsage p) }
  | .flag f none => .error (.missingValue f.usage)
  | .flag f (some v) => rest.assign f v

def hasFile (d : Draft) : Bool :=
  d.file.isSome || match d.pending with
    | .file _ => true
    | _ => false

def takeFile (d : Draft) (arg : List Char) : Except Stop Draft :=
  if d.hasFile then .error (.usage (.unexpectedArgument arg))
  else do return { (← d.settle.mapError .usage) with pending := .file arg }

def takePlain (d : Draft) (arg : List Char) : Except Stop Draft :=
  match d.pending with
  | .flag f none => .ok { d with pending := .flag f (some arg) }
  | _ => d.takeFile arg

/-- Ends reading, after what was not yet looked at. -/
def finish (d : Draft) (s : Stop) : Except Stop Draft :=
  match d.settle with
  | .ok _ => .error s
  | .error e => .error (.usage e)

/-- Takes an option with two dashes; its value may be attached. -/
def takeLong (d : Draft) (name : List Char) (value : Option (List Char)) : Except Stop Draft :=
  let arg := "--".toList ++ name
  let last := fun s => match value with
    | some v => .error (.usage (.unexpectedValue v arg))
    | none => d.finish s
  if name = "help".toList then last .help
  else if name = "version".toList then last .version
  else match Flag.all.find? fun f => f.name.toList = name, value with
    | none, _ => .error (.usage (.unexpectedArgument arg))
    | some f, some v =>
      (do (← d.settle).assign f v : Except UsageError Draft).mapError .usage
    | some f, none => do return { (← d.settle.mapError .usage) with pending := .flag f none }

def takeShort (d : Draft) (c : Char) : Except Stop Draft :=
  if c = 'h' then d.finish .help
  else if c = 'V' then d.finish .version
  else .error (.usage (.unexpectedArgument ['-', c]))

def take (d : Draft) (arg : List Char) : Except Stop Draft :=
  if d.filesOnly then d.takeFile arg
  else match arg with
    | ['-', '-'] => .ok { d with filesOnly := true }
    | '-' :: '-' :: s =>
      let name := s.takeWhile (· != '=')
      d.takeLong name ((s.drop name.length).tail?)
    | '-' :: c :: _ => d.takeShort c
    | _ => d.takePlain arg

end Draft

namespace Invocation

/-- The invocation, when all arguments are known. The configuration may come from the
environment. -/
def ofDraft (d : Draft) (config : Option (List Char)) : Except UsageError Invocation := do
  let d ← d.settle
  let config ← match d.config, config with
    | some c, _ => .ok (some c)
    | none, some c => (Draft.path Flag.config.usage c).map some
    | none, none => .ok none
  match d.file with
  | none => throw .missingFile
  | some file =>
    return { file, config, catalog := d.catalog, viewport := d.viewport, fold := d.fold,
             complete := d.complete, format := d.format.getD .text }

def ofArguments (args : List (List Char)) (config : Option (List Char)) :
    Except Stop Invocation := do
  (ofDraft (← args.foldlM Draft.take {}) config).mapError .usage

end Invocation

end MetaBlocks.Command
