import MetaBlocks.Yaml.Glyph

/-!
The three ways of writing scalar text: plain, in quotes, and as an indented block. Each reader
takes what follows the scalar's first indicator and gives back the text and the rest.

Inside plain and quoted scalars a single line break stands for a space and further ones for
themselves; blanks around breaks do not count.
-/

set_option autoImplicit false
set_option relaxedAutoImplicit false

namespace MetaBlocks.Yaml

inductive ScalarStyle where
  | plain
  | singleQuoted
  | doubleQuoted
  | literal
  | folded
  deriving DecidableEq, Repr, Inhabited

/-- Blanks met since the last character of the text, in reverse. Once a line break has been met
only breaks count; the first of them is missing when it was escaped. -/
inductive Pending where
  | blanks (cs : List Char)
  | breaks (first : Option Char) (more : List Char)
  deriving DecidableEq, Repr, Inhabited

namespace Pending

def none : Pending := blanks []

def addBlank (c : Char) : Pending → Pending
  | blanks cs => blanks (c :: cs)
  | p => p

def addBreak (c : Char) : Pending → Pending
  | blanks _ => breaks (some c) []
  | breaks first more => breaks first (c :: more)

def isBroken : Pending → Bool
  | blanks _ => false
  | breaks _ _ => true

/-- What the blanks stand for, put on a reversed text. -/
def joinTo (acc : List Char) : Pending → List Char
  | blanks cs => cs ++ acc
  | breaks (some '\n') [] => ' ' :: acc
  | breaks (some '\n') more => more ++ acc
  | breaks (some c) more => more ++ c :: acc
  | breaks Option.none more => more ++ acc

end Pending

namespace Scalar

/-- The indicators that end a plain scalar inside flow collections. -/
def isFlowEnd (c : Char) : Bool := c == ',' || c == '[' || c == ']' || c == '\x7b' || c == '\x7d'

/-- A plain scalar: its text, whether a line break followed it, and the rest. `inFlow` is set inside
flow collections; elsewhere a line that starts before `indent` ends the scalar. `fresh` says that
the last character was a blank or a break. -/
def plain (inFlow : Bool) (indent : Nat) (fresh : Bool) (pending : Pending) (acc : List Char) :
    List Glyph → Except Problem (List Char × Bool × List Glyph)
  | [] => .ok (acc.reverse, pending.isBroken, [])
  | g :: gs =>
    let finish := .ok (acc.reverse, pending.isBroken, g :: gs)
    if isGap g.char then
      if pending.isBroken && g.char == '\t' && g.mark.column < indent then .error .plainTab
      else plain inFlow indent true (pending.addBlank g.char) acc gs
    else if isBreak g.char then plain inFlow indent true (pending.addBreak g.char) acc gs
    else if fresh && (Glyph.isDocumentMarker (g :: gs) || g.char == '#' ||
        (!inFlow && g.mark.column < indent)) then finish
    else if inFlow && g.char == ':' &&
        gs.head?.any (fun h => isFlowEnd h.char || h.char == '?') then .error .plainColon
    else if (g.char == ':' && Glyph.gapOrEnd gs) || (inFlow && isFlowEnd g.char) then finish
    else plain inFlow indent false .none (g.char :: pending.joinTo acc) gs

inductive QuotedState where
  | text
  /-- After a quote that may be the closing one. -/
  | quote
  /-- After a backslash. -/
  | escape
  /-- Inside a numeric escape: digits still to come, and the value so far. -/
  | digits (left : Nat) (value : Nat)
  deriving DecidableEq, Repr, Inhabited

def escapedChar? (c : Char) : Option Char :=
  match c with
  | '0' => some (Char.ofNat 0)
  | 'a' => some (Char.ofNat 7)
  | 'b' => some (Char.ofNat 8)
  | 't' => some '\t'
  | '\t' => some '\t'
  | 'n' => some '\n'
  | 'v' => some (Char.ofNat 0x0B)
  | 'f' => some (Char.ofNat 0x0C)
  | 'r' => some '\r'
  | 'e' => some (Char.ofNat 0x1B)
  | ' ' => some ' '
  | '"' => some '"'
  | '/' => some '/'
  | '\\' => some '\\'
  | 'N' => some (Char.ofNat 0x85)
  | '_' => some (Char.ofNat 0xA0)
  | 'L' => some (Char.ofNat 0x2028)
  | 'P' => some (Char.ofNat 0x2029)
  | _ => none

def escapeLength? (c : Char) : Option Nat :=
  match c with
  | 'x' => some 2
  | 'u' => some 4
  | 'U' => some 8
  | _ => none

def hexDigit? (c : Char) : Option Nat :=
  if '0' ≤ c && c ≤ '9' then some (c.toNat - '0'.toNat)
  else if 'a' ≤ c && c ≤ 'f' then some (c.toNat - 'a'.toNat + 10)
  else if 'A' ≤ c && c ≤ 'F' then some (c.toNat - 'A'.toNat + 10)
  else none

/-- Text in single or double quotes, without the opening quote. -/
def quoted (double : Bool) (state : QuotedState) (pending : Pending) (acc : List Char) :
    List Glyph → Except Problem (List Char × List Glyph)
  | [] => if state = .quote then .ok (acc.reverse, []) else .error .unclosedQuotes
  | g :: gs =>
    match state with
    | .text =>
      if isGap g.char then quoted double .text (pending.addBlank g.char) acc gs
      else if isBreak g.char then quoted double .text (pending.addBreak g.char) acc gs
      else if Glyph.isDocumentMarker (g :: gs) then .error .documentInQuotes
      else
        let acc := pending.joinTo acc
        if double && g.char == '"' then .ok (acc.reverse, gs)
        else if double && g.char == '\\' then quoted double .escape .none acc gs
        else if !double && g.char == '\'' then quoted double .quote .none acc gs
        else quoted double .text .none (g.char :: acc) gs
    | .quote =>
      if g.char == '\'' then quoted double .text .none ('\'' :: acc) gs
      else .ok (acc.reverse, g :: gs)
    | .escape =>
      if isBreak g.char then quoted double .text (.breaks none []) acc gs
      else match escapedChar? g.char, escapeLength? g.char with
        | some c, _ => quoted double .text .none (c :: acc) gs
        | none, some n => quoted double (.digits n 0) .none acc gs
        | none, none => .error .unknownEscape
    | .digits left value =>
      match hexDigit? g.char with
      | none => .error .escapeDigit
      | some d =>
        let value := 16 * value + d
        if 1 < left then quoted double (.digits (left - 1) value) .none acc gs
        else if value.isValidChar then quoted double .text .none (Char.ofNat value :: acc) gs
        else .error .escapeCodePoint

/-- What becomes of the line breaks at the end of a block scalar. -/
inductive Chomping where
  | strip
  | clip
  | keep
  deriving DecidableEq, Repr, Inhabited

/-- The indicators after a block scalar's first one: chomping and indentation, in either order. -/
def blockHeader (gs : List Glyph) : Except Problem (Chomping × Option Nat × List Glyph) :=
  let chomping? : List Glyph → Option (Chomping × List Glyph)
    | g :: rest =>
      if g.char == '+' then some (.keep, rest)
      else if g.char == '-' then some (.strip, rest)
      else none
    | [] => none
  let indent? : List Glyph → Except Problem (Option Nat × List Glyph)
    | g :: rest =>
      if g.char == '0' then .error .zeroIndent
      else if g.char.isDigit then .ok (some (g.char.toNat - '0'.toNat), rest)
      else .ok (none, g :: rest)
    | [] => .ok (none, [])
  match chomping? gs with
  | some (c, rest) => do
    let (n, rest) ← indent? rest
    return (c, n, rest)
  | none => do
    let (n, rest) ← indent? gs
    match n, chomping? rest with
    | some _, some (c, rest) => return (c, n, rest)
    | _, _ => return (.clip, n, rest)

/-- Empty lines of a block scalar: the widest of their indentations, their breaks in reverse, and
the rest from the first line that holds text, its indentation skipped. Without a known `indent`
all spaces are indentation. -/
def blockBreaks (indent : Option Nat) (widest : Nat) (breaks : List Char) :
    List Glyph → Except Problem (Nat × List Char × List Glyph)
  | [] => .ok (widest, breaks, [])
  | g :: gs =>
    let inIndent := indent.all fun n => g.mark.column < n
    if g.char == ' ' && inIndent then blockBreaks indent widest breaks gs
    else
      let widest := max widest g.mark.column
      if g.char == '\t' && inIndent then .error .tabIndent
      else if isBreak g.char then blockBreaks indent widest (g.char :: breaks) gs
      else .ok (widest, breaks, g :: gs)

/-- The text lines of a block scalar. `lastBreak` and `breaks` are the breaks after the line taken
last, and `lastIndented` says that it started with a blank; a folded scalar joins two lines unless
one of them is indented further. -/
def blockLines (isLiteral : Bool) (indent : Nat) : Nat → Option Char → List Char → Bool →
    List Char → List Glyph → Except Problem (List Char × Option Char × List Char × List Glyph)
  | fuel + 1, lastBreak, breaks, lastIndented, acc, g :: gs =>
    if g.mark.column ≠ indent then .ok (acc, lastBreak, breaks, g :: gs)
    else do
      let indented := isGap g.char
      let joined :=
        if !isLiteral && lastBreak = some '\n' && !lastIndented && !indented then
          if breaks.isEmpty then ' ' :: acc else acc
        else lastBreak.toList ++ acc
      let (line, rest) := Glyph.splitWhile (fun c => !isBreak c) (g :: gs)
      let acc := line.reverse ++ (breaks ++ joined)
      match rest with
      | [] => return (acc, none, [], [])
      | b :: rest =>
        let (_, breaks, rest) ← blockBreaks (some indent) 0 [] rest
        blockLines isLiteral indent fuel (some b.char) breaks indented acc rest
  | _, lastBreak, breaks, _, acc, gs => .ok (acc, lastBreak, breaks, gs)

/-- A block scalar without its first indicator; `parent` is one more than the indentation of the
collection it stands in. -/
def block (isLiteral : Bool) (parent : Nat) (gs : List Glyph) :
    Except Problem (List Char × List Glyph) := do
  let (chomping, increment, gs) ← blockHeader gs
  let gs ← Glyph.skipLineEnd .directiveEnd gs
  let given := increment.map fun n => parent - 1 + n
  let (widest, breaks, gs) ← blockBreaks given 0 [] gs
  let indent := given.getD (max (max widest parent) 1)
  let (acc, lastBreak, breaks, gs) ← blockLines isLiteral indent gs.length none breaks false [] gs
  let tail := match chomping with
    | .strip => acc
    | .clip => lastBreak.toList ++ acc
    | .keep => breaks ++ (lastBreak.toList ++ acc)
  return (tail.reverse, gs)

end Scalar

end MetaBlocks.Yaml
