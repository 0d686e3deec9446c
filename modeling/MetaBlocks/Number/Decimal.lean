/-!
Natural numbers of 64 bits in decimal digits, with an optional plus sign. Leading zeros are allowed.
-/

set_option autoImplicit false
set_option relaxedAutoImplicit false

namespace MetaBlocks.Number

inductive DecimalError where
  | empty
  | invalidDigit
  | tooLarge
  deriving DecidableEq, Repr, Inhabited

def DecimalError.message : DecimalError → String
  | empty => "cannot parse integer from empty string"
  | invalidDigit => "invalid digit found in string"
  | tooLarge => "number too large to fit in target type"

namespace Decimal

def push (n : Nat) (c : Char) : Except DecimalError Nat :=
  if c.isDigit then
    let m := 10 * n + (c.toNat - '0'.toNat)
    if m < UInt64.size then .ok m else .error .tooLarge
  else .error .invalidDigit

/-- The number that digits write behind a number; the first fault counts. -/
def readFrom (n : Nat) : List Char → Except DecimalError Nat
  | [] => .ok n
  | c :: s => do readFrom (← push n c) s

def read : List Char → Except DecimalError Nat
  | [] => .error .empty
  | ['+'] => .error .invalidDigit
  | '+' :: s => readFrom 0 s
  | s => readFrom 0 s

end Decimal

end MetaBlocks.Number
