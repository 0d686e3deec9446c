import MetaBlocks.Text.Decimal
import MetaBlocks.Text.Quoted
import MetaBlocks.Yaml.CoreValue

/-!
Why a well-formed YAML document was not accepted, and where.
-/

set_option autoImplicit false
set_option relaxedAutoImplicit false

namespace MetaBlocks.Yaml

inductive PathStep where
  | key (name : List Char)
  | index (i : Nat)
  /-- Below a key that is not written as a scalar. -/
  | unnamed
  deriving DecidableEq, Repr, Inhabited

/-- The steps from the root to a node, the last one first. -/
abbrev Path := List PathStep

namespace Path

mutual

def describe : Path → List Char
  | [] => ['.']
  | .index i :: parent => describe parent ++ '[' :: Text.decimal i ++ [']']
  | .key name :: parent => start parent ++ name
  | .unnamed :: parent => start parent ++ ['?']

def start : Path → List Char
  | [] => []
  | .index i :: parent => describe parent ++ '[' :: Text.decimal i ++ [']', '.']
  | .key name :: parent => start parent ++ name ++ ['.']
  | .unnamed :: parent => start parent ++ ['?', '.']

end

end Path

inductive Found where
  | value (v : CoreValue)
  | sequence
  | mapping
  deriving DecidableEq, Repr, Inhabited

def FloatValue.describe : FloatValue → List Char
  | finite true size => '-' :: size.toText
  | finite false size => size.toText
  | infinite true => "-inf".toList
  | infinite false => "inf".toList
  | notANumber => "NaN".toList

def describeInt : Int → List Char
  | .ofNat n => Text.decimal n
  | .negSucc n => '-' :: Text.decimal (n + 1)

def Found.describe : Found → List Char
  | value .null => "unit value".toList
  | value (.boolean true) => "boolean `true`".toList
  | value (.boolean false) => "boolean `false`".toList
  | value (.integer n) => "integer `".toList ++ describeInt n ++ ['`']
  | value (.wideInteger n) =>
    "integer `".toList ++ describeInt n ++ (if 0 ≤ n then "` as u128" else "` as i128").toList
  | value (.float x) => "floating point `".toList ++ x.describe ++ ['`']
  | value (.text s) => "string ".toList ++ Text.quote s
  | sequence => "sequence".toList
  | mapping => "map".toList

inductive Cause where
  | invalidType (found : Found) (wanted : String)
  | invalidValue (found : Found) (wanted : String)
  | unknownField (name : List Char) (known : List String)
  | duplicateField (name : String)
  | unknownVariant (name : List Char) (known : List String)
  | noVariant (type : String)
  | taggedItem
  deriving DecidableEq, Repr, Inhabited

namespace Cause

def quoteName (s : List Char) : List Char := '`' :: s ++ ['`']

def oneOf : List String → List Char
  | [] => []
  | [a] => quoteName a.toList
  | [a, b] => quoteName a.toList ++ " or ".toList ++ quoteName b.toList
  | names =>
    "one of ".toList ++ [',', ' '].intercalate (names.map fun n => quoteName n.toList)

def describe : Cause → List Char
  | invalidType found wanted =>
    "invalid type: ".toList ++ found.describe ++ ", expected ".toList ++ wanted.toList
  | invalidValue found wanted =>
    "invalid value: ".toList ++ found.describe ++ ", expected ".toList ++ wanted.toList
  | unknownField name known =>
    "unknown field ".toList ++ quoteName name ++ ", expected ".toList ++ oneOf known
  | duplicateField name => "duplicate field ".toList ++ quoteName name.toList
  | unknownVariant name known =>
    "unknown variant ".toList ++ quoteName name ++ ", expected ".toList ++ oneOf known
  | noVariant type =>
    "data did not match any variant of untagged enum ".toList ++ type.toList
  | taggedItem => "untagged and internally tagged enums do not support enum input".toList

end Cause

structure Place where
  path : Path
  mark : Mark
  deriving DecidableEq, Repr, Inhabited

inductive Fault where
  | cause (c : Cause) (place : Option Place)
  /-- Collections are nested too deeply. -/
  | tooDeep (mark : Mark)
  /-- Aliases are followed too often. -/
  | tooManyAliases
  deriving DecidableEq, Repr, Inhabited

namespace Fault

/-- The fault with a place, unless it has one or needs none. -/
def locate (path : Path) (mark : Mark) : Fault → Fault
  | cause c none => cause c (some ⟨path, mark⟩)
  | f => f

/-- The place as messages show it; the very start of the text is left out. -/
def describeMark (m : Mark) : List Char := if m.isStart then [] else (" at " ++ m.describe).toList

def describe : Fault → List Char
  | cause c none => c.describe
  | cause c (some p) =>
    (if p.path.isEmpty then [] else p.path.describe ++ [':', ' ']) ++ c.describe ++
      describeMark p.mark
  | tooDeep m => "recursion limit exceeded".toList ++ describeMark m
  | tooManyAliases => "repetition limit exceeded".toList

end Fault

def located {α : Type} (path : Path) (mark : Mark) (r : Except Fault α) : Except Fault α :=
  r.mapError (Fault.locate path mark)

end MetaBlocks.Yaml
