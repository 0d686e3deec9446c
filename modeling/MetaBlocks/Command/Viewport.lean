import MetaBlocks.Extent
import MetaBlocks.Number.Decimal
import MetaBlocks.Text.Blank
import MetaBlocks.Text.Quoted

/-!
Viewports as arguments: two numbers with two dots between them, and blanks around each.
-/

set_option autoImplicit false
set_option relaxedAutoImplicit false

namespace MetaBlocks.Command

inductive ViewportError where
  | noDots (text : List Char)
  | start (part : List Char) (error : Number.DecimalError)
  | stop (part : List Char) (error : Number.DecimalError)
  deriving DecidableEq, Repr, Inhabited

def ViewportError.message : ViewportError → List Char
  | noDots s => "expected <start>..<end>, got ".toList ++ Text.quote s
  | start p e =>
    "invalid viewport start ".toList ++ Text.quote p ++ ':' :: ' ' :: e.message.toList
  | stop p e =>
    "invalid viewport end ".toList ++ Text.quote p ++ ':' :: ' ' :: e.message.toList

namespace Viewport

/-- The text before the first two dots and the text behind them. -/
def splitAtDots : List Char → Option (List Char × List Char)
  | '.' :: '.' :: s => some ([], s)
  | c :: s => (splitAtDots s).map fun (a, b) => (c :: a, b)
  | [] => none

def read (s : List Char) : Except ViewportError Extent :=
  match splitAtDots s with
  | none => .error (.noDots s)
  | some (a, b) => do
    let start ← (Number.Decimal.read (Text.trim a)).mapError (.start a)
    let stop ← (Number.Decimal.read (Text.trim b)).mapError (.stop b)
    return ⟨start, stop⟩

end Viewport

end MetaBlocks.Command
