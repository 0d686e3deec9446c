import MetaBlocks.Block
import MetaBlocks.Document

/-!
What a single line is, decided without looking at its neighbours.

A line of white space is blank. Three or more dashes at the very start, then nothing but white
space, make a delimiter. White space, a key of ASCII letters, digits, underscores and dashes, and
a colon make a keyword line or an entry, whose value is the trimmed rest.
-/

set_option autoImplicit false
set_option relaxedAutoImplicit false

namespace MetaBlocks

inductive LineKind where
  | blank
  | delimiter
  | declaration (d : Declaration)
  | entry (e : Entry)
  | text
  deriving DecidableEq, Repr, Inhabited

namespace LineKind

def isKeyChar (c : Char) : Bool := c.isAlphanum || c == '_' || c == '-'

/-- Three or more dashes, then only white space. -/
def isDelimiterText (s : List Char) : Bool :=
  3 ≤ (s.takeWhile (· == '-')).length && Text.isBlankText (s.dropWhile (· == '-'))

/-- The pieces of a keyword line or an entry, in order of their place in the line. -/
structure Field where
  /-- White space before the key. -/
  indent : List Char
  key : List Char
  /-- White space between the colon and the value. -/
  gap : List Char
  /-- The rest of the line without trailing white space. -/
  value : List Char
  deriving DecidableEq, Repr, Inhabited

def field? (s : List Char) : Option Field :=
  let afterIndent := Text.trimStart s
  let key := afterIndent.takeWhile isKeyChar
  match key, afterIndent.dropWhile isKeyChar with
  | _ :: _, ':' :: rest =>
    some ⟨s.takeWhile Text.isBlank, key, rest.takeWhile Text.isBlank, Text.trim rest⟩
  | _, _ => none

def ofField (l : Line) (f : Field) : LineKind :=
  let keyStart := l.start + f.indent.length
  let keyExtent : Extent := ⟨keyStart, keyStart + f.key.length⟩
  let valueStart := keyExtent.stop + 1 + f.gap.length
  let valueExtent : Extent := ⟨valueStart, valueStart + f.value.length⟩
  match Keyword.ofKey? f.key with
  | some k => declaration ⟨k, l.number, keyExtent, f.value, valueExtent⟩
  | none => entry ⟨l.number, f.key, keyExtent, f.value, valueExtent, ValueType.infer f.value⟩

def ofLine (l : Line) : LineKind :=
  if l.isBlank then blank
  else if isDelimiterText l.text then delimiter
  else match field? l.text with
    | some f => ofField l f
    | none => text

/-- A keyword line or an entry: what makes a pair of delimiters a block. -/
def qualifies : LineKind → Bool
  | declaration _ => true
  | entry _ => true
  | _ => false

def declaration? : LineKind → Option Declaration
  | declaration d => some d
  | _ => none

def entry? : LineKind → Option Entry
  | entry e => some e
  | _ => none

end LineKind

end MetaBlocks
