import MetaBlocks.FileText
import MetaBlocks.Text.Blank
import MetaBlocks.Yaml.Decode
import MetaBlocks.Yaml.Stream

/-!
Loading a value from a YAML text. The text must be well formed to its end before anything in it is
looked at, and may hold one document at most.
-/

set_option autoImplicit false
set_option relaxedAutoImplicit false

namespace MetaBlocks

inductive LoadError where
  | unreadable (failure : ReadFailure)
  | malformed (error : Yaml.SyntaxError)
  | faulty (fault : Yaml.Fault)
  | manyDocuments
  /-- The placeholder for folds shows nothing. -/
  | blankPlaceholder
  deriving DecidableEq, Repr, Inhabited

namespace LoadError

/-- What lies behind an error, if it only passes something on. -/
def source? : LoadError → Option (List Char)
  | unreadable f => some f.message.toList
  | malformed e => some e.message.toList
  | faulty f => some f.describe
  | manyDocuments =>
    some "deserializing from YAML containing more than one document is not supported".toList
  | blankPlaceholder => none

def heading : LoadError → List Char
  | unreadable _ => "I/O error: ".toList
  | malformed _ => "YAML parse error: ".toList
  | faulty _ => "YAML parse error: ".toList
  | manyDocuments => "YAML parse error: ".toList
  | blankPlaceholder => "invalid configuration: folding.placeholder must not be empty".toList

def message (e : LoadError) : List Char := e.heading ++ e.source?.getD []

/-- The error in words, and then what lies behind it once more. -/
def chain (e : LoadError) : List Char :=
  e.message ++ match e.source? with
    | some s => ':' :: ' ' :: s
    | none => []

end LoadError

/-- The value of a YAML text; a text without a document has none. -/
def Yaml.load? {α : Type} (read : Yaml.Decoder α) (text : List Char) :
    Except LoadError (Option α) := do
  if Text.isBlankText text then return none
  match ← (Yaml.Document.ofText text).mapError LoadError.malformed with
  | [] => return none
  | d :: ds =>
    let a ← (read d [] d.root).mapError LoadError.faulty
    if ds.isEmpty then return some a else throw .manyDocuments

end MetaBlocks
