import MetaBlocks.Number.Binary64
import MetaBlocks.Yaml.Node

/-!
What a scalar's text means: nothing, a truth value, a number, or the text itself. Only plain scalars
are looked at, unless a tag says what the scalar is.
-/

set_option autoImplicit false
set_option relaxedAutoImplicit false

namespace MetaBlocks.Yaml

inductive FloatValue where
  | finite (negative : Bool) (size : Number.Binary64)
  | infinite (negative : Bool)
  | notANumber
  deriving DecidableEq, Repr, Inhabited

inductive CoreValue where
  | null
  | boolean (b : Bool)
  /-- An integer of at most 64 bits. -/
  | integer (n : Int)
  /-- An integer of at most 128 bits. -/
  | wideInteger (n : Int)
  | float (x : FloatValue)
  | text (s : List Char)
  deriving DecidableEq, Repr, Inhabited

namespace CoreValue

def isNull (s : List Char) : Bool :=
  s == "null".toList || s == "Null".toList || s == "NULL".toList || s == ['~']

def boolean? (s : List Char) : Option Bool :=
  if s == "true".toList || s == "True".toList || s == "TRUE".toList then some true
  else if s == "false".toList || s == "False".toList || s == "FALSE".toList then some false
  else none

def digit? (base : Nat) (c : Char) : Option Nat := (Scalar.hexDigit? c).filter (· < base)

def digits? (base : Nat) (s : List Char) : Option Nat :=
  if s.isEmpty then none
  else s.foldl (fun n c => do return base * (← n) + (← digit? base c)) (some 0)

def after? (start s : List Char) : Option (List Char) :=
  if start.isPrefixOf s then some (s.drop start.length) else none

def dropPlus (s : List Char) : List Char := (after? ['+'] s).getD s

def startsWithSign (s : List Char) : Bool := s.head?.any fun c => c == '+' || c == '-'

/-- Digits behind a leading zero, with or without a sign, do not make a number. -/
def isZeroPadded (s : List Char) : Bool :=
  let s := if startsWithSign s then s.drop 1 else s
  1 < s.length && s.head? == some '0' && s.all Char.isDigit

def marked? (mark : List Char) (base limit : Nat) (s : List Char) : Option Nat := do
  let n ← digits? base (← after? mark s)
  if n ≤ limit then some n else none

/-- The first number that one of the three base marks gives. -/
def basedNumber? (sign : List Char) (limit : Nat) (s : List Char) : Option Nat :=
  ((marked? (sign ++ ['0', 'x']) 16 limit s).or (marked? (sign ++ ['0', 'o']) 8 limit s)).or
    (marked? (sign ++ ['0', 'b']) 2 limit s)

/-- A number without a minus sign, of at most the given size. -/
def unsigned? (limit : Nat) (s : List Char) : Option Nat :=
  let t := dropPlus s
  match basedNumber? [] limit t with
  | some n => some n
  | none =>
    if isZeroPadded s then none else (digits? 10 t).filter (· ≤ limit)

def negative? (limit : Nat) (s : List Char) : Option Nat :=
  match basedNumber? ['-'] limit s with
  | some n => some n
  | none =>
    if isZeroPadded s then none
    else do
      let n ← digits? 10 (← after? ['-'] s)
      if n ≤ limit then some n else none

def integer? (s : List Char) : Option CoreValue :=
  match unsigned? (UInt64.size - 1) s, negative? (Nat.pow 2 63) s with
  | some n, _ => some (.integer n)
  | none, some n => some (.integer (-n))
  | none, none =>
    match unsigned? (Nat.pow 2 128 - 1) s, negative? (Nat.pow 2 127) s with
    | some n, _ => some (.wideInteger n)
    | none, some n => some (.wideInteger (-n))
    | none, none => none

def exponent? : List Char → Option Int
  | [] => some 0
  | c :: s =>
    if c == 'e' || c == 'E' then
      match s with
      | '-' :: s => (digits? 10 s).map fun n => -(n : Int)
      | '+' :: s => (digits? 10 s).map Int.ofNat
      | s => (digits? 10 s).map Int.ofNat
    else none

/-- Digits with an optional point among them or at an end, then an exponent: all digits, how many of
them are behind the point, and the exponent. -/
def decimal? (s : List Char) : Option (List Char × Nat × Int) := do
  let whole := s.takeWhile Char.isDigit
  let rest := s.dropWhile Char.isDigit
  let fraction := match rest with
    | '.' :: t => t.takeWhile Char.isDigit
    | _ => []
  let tail := match rest with
    | '.' :: t => t.dropWhile Char.isDigit
    | t => t
  if whole.isEmpty && fraction.isEmpty then none
  else return (whole ++ fraction, fraction.length, ← exponent? tail)

/-- The nearest floating-point number to a decimal, if it is finite. Decimals far out of range are
not worked out. -/
def nearest? (ds : List Char) (places : Nat) (exponent : Int) : Option Number.Binary64 :=
  let significant := ds.dropWhile (· == '0')
  let power := exponent - places
  let size : Int := power + significant.length
  if significant.isEmpty || size < -400 then some ⟨0, 0⟩
  else if 400 < size then none
  else
    let n := ((digits? 10 significant).getD 0)
    Number.Binary64.ofFraction? (.scaled n 10 power)

def float? (s : List Char) : Option FloatValue :=
  let t := dropPlus s
  let isWord := fun (t : List Char) (words : List String) => words.any fun w => w.toList == t
  if s.length ≠ t.length && startsWithSign t then none
  else if isWord t [".inf", ".Inf", ".INF"] then some (.infinite false)
  else if isWord s ["-.inf", "-.Inf", "-.INF"] then some (.infinite true)
  else if isWord s [".nan", ".NaN", ".NAN"] then some .notANumber
  else
    let negative := t.head? == some '-'
    do
      let (ds, places, exponent) ← decimal? (if negative then t.drop 1 else t)
      return .finite negative (← nearest? ds places exponent)

def ofPlain (s : List Char) : CoreValue :=
  if s.isEmpty || isNull s then .null
  else match boolean? s with
    | some b => .boolean b
    | none =>
      match integer? s with
      | some v => v
      | none =>
        match if isZeroPadded s then none else float? s with
        | some x => .float x
        | none => .text s

def coreTag (name : String) : List Char := "tag:yaml.org,2002:".toList ++ name.toList

/-- The meaning of a scalar, or what its tag asked for in vain. -/
def ofScalar (tag : Option (List Char)) (style : ScalarStyle) (s : List Char) :
    Except String CoreValue :=
  match tag with
  | none => .ok (if style = .plain then ofPlain s else .text s)
  | some t =>
    if t = coreTag "bool" then
      match boolean? s with
      | some b => .ok (.boolean b)
      | none => .error "a boolean"
    else if t = coreTag "int" then
      match integer? s with
      | some v => .ok v
      | none => .error "an integer"
    else if t = coreTag "float" then
      match float? s with
      | some x => .ok (.float x)
      | none => .error "a float"
    else if t = coreTag "null" then
      if isNull s then .ok .null else .error "null"
    else if t.head? = some '!' && style = .plain then .ok (ofPlain s)
    else .ok (.text s)

end CoreValue

end MetaBlocks.Yaml
