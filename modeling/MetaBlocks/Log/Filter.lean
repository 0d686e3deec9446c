import MetaBlocks.Log
import MetaBlocks.Number.Decimal
import MetaBlocks.Text.Blank

/-!
Which events are logged. A filter is a list of directives with commas between them. A directive sets
the least level for targets that start with a text, or for all; of those that apply to an event the
one with the longest text counts, and of equals the last.
-/

set_option autoImplicit false
set_option relaxedAutoImplicit false

namespace MetaBlocks

/-- Events up to a rank are logged, for targets that start with a text. -/
structure LogDirective where
  target : List Char
  rank : Nat
  deriving DecidableEq, Repr, Inhabited

inductive LogDirectiveError where
  | level
  | shape
  deriving DecidableEq, Repr, Inhabited

def LogDirectiveError.message : LogDirectiveError → String
  | level =>
    "error parsing level filter: expected one of \"off\", \"error\", \"warn\", " ++
      "\"info\", \"debug\", \"trace\", or a number 0-5"
  | shape => "invalid filter directive"

namespace LogDirective

def levelNames : List (List Char) :=
  ["off".toList, "error".toList, "warn".toList, "info".toList, "debug".toList, "trace".toList]

def rank? (s : List Char) : Option Nat :=
  match Number.Decimal.read s with
  | .ok n => if n ≤ 5 then some n else none
  | .error _ => levelNames.idxOf? (s.map Char.toLower)

/-- Targets start with a letter, a digit or one of three marks. -/
def startsTarget (c : Char) : Bool :=
  c.isAlphanum || c == '-' || c == ':' || c == '_' || 128 ≤ c.toNat

/-- The level behind an equality sign; none means everything. -/
def levelOf (s : List Char) : Except LogDirectiveError Nat :=
  if s.isEmpty then .ok 5
  else match rank? s with
    | some n => .ok n
    | none => .error .level

/-- A directive: a level, a target, or a target with a level. A directive about spans is one about
nothing, since no event lies in a span. Only the shape is looked at without the blanks around it. -/
def ofText (s : List Char) : Except LogDirectiveError (Option LogDirective) :=
  match Text.trim s with
  | [] => .error .shape
  | c :: rest =>
    let name := (c :: rest).takeWhile fun c => c != '=' && c != '['
    match (c :: rest).drop name.length with
    | '[' :: _ => .ok none
    | '=' :: _ =>
      if startsTarget c then
        (levelOf (s.drop (name.length + 1))).map fun n => some ⟨s.take name.length, n⟩
      else .error .shape
    | _ =>
      if startsTarget c then .ok (some (match rank? s with
        | some n => ⟨[], n⟩
        | none => ⟨s, 5⟩))
      else .error .shape

end LogDirective

def splitAtCommas : List Char → List (List Char)
  | [] => [[]]
  | c :: s =>
    if c = ',' then [] :: splitAtCommas s
    else match splitAtCommas s with
      | part :: parts => (c :: part) :: parts
      | [] => [[c]]

structure LogFilter where
  directives : List LogDirective
  complaints : List (List Char)
  deriving DecidableEq, Repr, Inhabited

namespace LogFilter

def complaint (s : List Char) (e : LogDirectiveError) : List Char :=
  "ignoring `".toList ++ s ++ "`: ".toList ++ e.message.toList

def ofText (s : List Char) : LogFilter :=
  let parts := (splitAtCommas s).filter fun p => !p.isEmpty
  { directives := parts.filterMap fun p => (LogDirective.ofText p).toOption.join
    complaints := parts.filterMap fun p =>
      match LogDirective.ofText p with
      | .ok _ => none
      | .error e => some (complaint p e) }

/-- The better of two directives: the one for longer targets, or else the later. -/
def better (a b : LogDirective) : LogDirective :=
  if a.target.length ≤ b.target.length then b else a

def directive? (f : LogFilter) (target : List Char) : Option LogDirective :=
  match f.directives.filter fun d => d.target.isPrefixOf target with
  | [] => none
  | d :: ds => some (ds.foldl better d)

def accepts (f : LogFilter) (e : LogEvent) : Bool :=
  (f.directive? e.target).any fun d => e.level.rank ≤ d.rank

/-- A bare level is meant for this program's targets only. -/
def expand (s : List Char) : List Char :=
  let s := Text.trim s
  if s.any fun c => c == '=' || c == ',' || c == ':' then s
  else "warn,quill_meta=".toList ++ s

/-- The filter of an environment: by the program's own variable, by the common one, or for
warnings. -/
def ofVariables (own common : Option (List Char)) : LogFilter :=
  match own, common with
  | some s, _ => ofText (expand s)
  | none, some s => ofText s
  | none, none => ofText "warn".toList

def lines (f : LogFilter) (events : List LogEvent) : List (List Char) :=
  f.complaints ++ (events.filter f.accepts).map LogEvent.line

end LogFilter

end MetaBlocks
