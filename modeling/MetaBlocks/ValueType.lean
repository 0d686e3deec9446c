import MetaBlocks.Text.Blank
import MetaBlocks.Text.Digit

/-!
The type of an entry's value, read off its text: a number literal, a truth word, or a string.

A number is an optional sign, then digits with an optional point and fraction or a point with a
fraction, then an optional exponent. Digits of every script count.
-/

set_option autoImplicit false
set_option relaxedAutoImplicit false

namespace MetaBlocks

inductive ValueType where
  | string
  | number
  | boolean
  deriving DecidableEq, Repr, Inhabited

namespace ValueType

def dropSign : List Char → List Char
  | '+' :: s => s
  | '-' :: s => s
  | s => s

def isDigits (s : List Char) : Bool := !s.isEmpty && s.all Text.isDigit

/-- The whole text is nothing, or an exponent mark, an optional sign and digits. -/
def isExponent : List Char → Bool
  | [] => true
  | c :: s => (c == 'e' || c == 'E') && isDigits (dropSign s)

/-- What may follow the digits before the point: a point with any digits, then an exponent. -/
def isFraction : List Char → Bool
  | '.' :: s => isExponent (s.dropWhile Text.isDigit)
  | s => isExponent s

def isUnsignedNumber (s : List Char) : Bool :=
  match s.dropWhile Text.isDigit with
  | '.' :: t =>
    if (s.takeWhile Text.isDigit).isEmpty && (t.takeWhile Text.isDigit).isEmpty then false
    else isFraction ('.' :: t)
  | t => !(s.takeWhile Text.isDigit).isEmpty && isExponent t

def isNumber (s : List Char) : Bool := isUnsignedNumber (dropSign s)

def sameWord (s t : List Char) : Bool := s.map Char.toLower == t.map Char.toLower

def isBoolean (s : List Char) : Bool := sameWord s "true".toList || sameWord s "false".toList

/-- The type of a value; blanks around it do not matter. -/
def infer (value : List Char) : ValueType :=
  let s := Text.trim value
  if isNumber s then .number else if isBoolean s then .boolean else .string

end ValueType

end MetaBlocks
