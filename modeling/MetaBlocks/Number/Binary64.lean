/-!
Binary floating-point numbers of 64 bits, in exact arithmetic: the nearest one to a decimal, and the
shortest decimal that is nearest to it.

A positive number is a significand times a power of two. The significand has 53 bits, or fewer at
the least exponent.
-/

set_option autoImplicit false
set_option relaxedAutoImplicit false

namespace MetaBlocks.Number

/-- The number `significand * 2 ^ exponent`, with the exponent counted from the least one. -/
structure Binary64 where
  significand : Nat
  exponent : Nat
  deriving DecidableEq, Repr, Inhabited

/-- A fraction of natural numbers; the denominator is positive. -/
structure Fraction where
  num : Nat
  den : Nat
  deriving DecidableEq, Repr, Inhabited

namespace Fraction

/-- A number times a power of a base, whose exponent may be negative. -/
def scaled (n base : Nat) (exponent : Int) : Fraction :=
  match exponent with
  | .ofNat e => ⟨n * Nat.pow base e, 1⟩
  | .negSucc e => ⟨n, Nat.pow base (e + 1)⟩

/-- The nearest natural number; of two the even one. -/
def round (x : Fraction) : Nat :=
  let q := x.num / x.den
  let r := x.num % x.den
  if 2 * r < x.den then q
  else if x.den < 2 * r then q + 1
  else q + q % 2

def le (x y : Fraction) : Bool := x.num * y.den ≤ y.num * x.den

def distance (x y : Fraction) : Fraction :=
  let a := x.num * y.den
  let b := y.num * x.den
  ⟨a - b + (b - a), x.den * y.den⟩

end Fraction

namespace Binary64

def leastExponent : Int := -1074

/-- The greatest exponent, counted from the least one. -/
def greatestExponent : Nat := 2045

def power (b : Binary64) : Int := leastExponent + b.exponent

def toFraction (b : Binary64) : Fraction := .scaled b.significand 2 b.power

/-- The greatest `t` with `2 ^ t` at most the fraction. -/
def log2 (x : Fraction) : Int :=
  let t : Int := (x.num.log2 : Int) - x.den.log2
  if Fraction.le (.scaled 1 2 t) x then t else t - 1

/-- The nearest number; nothing when the fraction is too large. -/
def ofFraction? (x : Fraction) : Option Binary64 :=
  if x.num = 0 then some ⟨0, 0⟩
  else
    let exponent := (log2 x - 52 - leastExponent).toNat
    let unit := Fraction.scaled 1 2 (leastExponent + exponent)
    let significand := Fraction.round ⟨x.num * unit.den, x.den * unit.num⟩
    let b : Binary64 :=
      if significand = Nat.pow 2 53 then ⟨Nat.pow 2 52, exponent + 1⟩ else ⟨significand, exponent⟩
    if b.exponent ≤ greatestExponent then some b else none

/-- The decimal lies where it is read as the given number: at most half a unit away, a quarter on
the side of a smaller unit; the ends count when the significand is even. -/
def isReadFrom (b : Binary64) (x : Fraction) : Bool :=
  let quarters := fun n => Fraction.scaled n 2 (b.power - 2)
  let low := 4 * b.significand - (if b.significand = Nat.pow 2 52 && 0 < b.exponent then 1 else 2)
  let lowEnd := quarters low
  let highEnd := quarters (4 * b.significand + 2)
  if b.significand % 2 = 0 then lowEnd.le x && x.le highEnd
  else !x.le lowEnd && !highEnd.le x

/-- The greatest `t` with `10 ^ t` at most the fraction, found by stepping down from a bound. -/
def log10From (x : Fraction) : Nat → Int → Int
  | 0, t => t
  | fuel + 1, t => if Fraction.le (.scaled 1 10 t) x then t else log10From x fuel (t - 1)

def log10 (b : Binary64) : Int := log10From b.toFraction 640 309

/-- The better of a number's two neighbours among the multiples of a power of ten, if one of them is
read as the number. -/
def neighbor? (b : Binary64) (power : Int) : Option Nat :=
  let x := b.toFraction
  let unit := Fraction.scaled 1 10 power
  let below := (x.num * unit.den) / (x.den * unit.num)
  let place := fun n => Fraction.scaled n 10 power
  let good := fun n => 0 < n && b.isReadFrom (place n)
  match good below, good (below + 1) with
  | true, true =>
    if (x.distance (place below)).le (x.distance (place (below + 1))) then some below
    else some (below + 1)
  | true, false => some below
  | false, true => some (below + 1)
  | false, false => none

/-- The decimal with the fewest digits, from the given number of digits on, as a natural number and
a power of ten. -/
def shortestFrom (b : Binary64) : Nat → Nat → Nat × Int
  | 0, _ => (0, 0)
  | fuel + 1, digits =>
    let power := b.log10 + 1 - digits
    match b.neighbor? power with
    | some n => (n, power)
    | none => shortestFrom b fuel (digits + 1)

def shortest (b : Binary64) : Nat × Int := if b.significand = 0 then (0, 0) else b.shortestFrom 20 1

/-- The number in positional notation with at least one digit on each side of the point. -/
def toText (b : Binary64) : List Char :=
  let (n, power) := b.shortest
  let ds := Nat.toDigits 10 n
  match power with
  | .ofNat p => ds ++ List.replicate p '0' ++ ['.', '0']
  | .negSucc p =>
    let places := p + 1
    let padded := List.replicate (places + 1 - ds.length) '0' ++ ds
    let whole := padded.take (padded.length - places)
    whole ++ '.' :: padded.drop (padded.length - places)

end Binary64

end MetaBlocks.Number
