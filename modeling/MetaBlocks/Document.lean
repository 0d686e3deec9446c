import MetaBlocks.Text.Blank

/-!
Documents: a text, its revision, and its lines.

A line ends at a line feed and nowhere else; a carriage return directly before the feed belongs to
the line break, any other carriage return to the line. Offsets count characters. The text after a
final line feed is a row, but not a line.
-/

set_option autoImplicit false
set_option relaxedAutoImplicit false

namespace MetaBlocks

/-- The pieces of a text up to and with each line feed, and the rest if it is not empty. -/
def Text.rows : List Char → List (List Char)
  | [] => []
  | c :: s =>
    if c = '\n' then [c] :: rows s
    else match rows s with
      | [] => [[c]]
      | r :: rs => (c :: r) :: rs

def Text.withoutBreak : List Char → List Char
  | [] => []
  | ['\n'] => []
  | ['\r', '\n'] => []
  | c :: s => c :: withoutBreak s

def Text.byteLength : List Char → Nat
  | [] => 0
  | c :: s => c.utf8Size + byteLength s

/-- Fingerprint of a text: the 64-bit FNV-1a hash of its code points. -/
def Text.digest (s : List Char) : UInt64 :=
  s.foldl (fun h c => (h ^^^ c.val.toUInt64) * 0x100000001b3) 0xcbf29ce484222325

structure Line where
  /-- Lines are numbered from one. -/
  number : Nat
  /-- Offset of the first character. -/
  start : Nat
  /-- The characters before the line break. -/
  text : List Char
  /-- Offset after the line break. -/
  nextStart : Nat
  deriving DecidableEq, Repr, Inhabited

namespace Line

def stop (l : Line) : Nat := l.start + l.text.length

def isBlank (l : Line) : Bool := Text.isBlankText l.text

def ofRows (number start : Nat) : List (List Char) → List Line
  | [] => []
  | r :: rs =>
    ⟨number, start, Text.withoutBreak r, start + r.length⟩ ::
      ofRows (number + 1) (start + r.length) rs

end Line

/-- An immutable text with the revision number its owner gave it. -/
structure Document where
  text : List Char
  revision : Nat
  deriving DecidableEq, Repr, Inhabited

namespace Document

def ofText (text : List Char) : Document := ⟨text, 0⟩

def length (d : Document) : Nat := d.text.length

/-- Number of rows: one more than the line feeds. -/
def rowCount (d : Document) : Nat := d.text.count '\n' + 1

/-- The last row is empty: the text is empty or ends with a line feed. -/
def endsWithEmptyRow (d : Document) : Bool :=
  match d.text.getLast? with
  | none => true
  | some c => c == '\n'

def lines (d : Document) : List Line := Line.ofRows 1 0 (Text.rows d.text)

def lineCount (d : Document) : Nat := (Text.rows d.text).length

/-- The line with this number; there is no line zero. -/
def line? (d : Document) : Nat → Option Line
  | 0 => none
  | n + 1 => d.lines[n]?

def clamp (d : Document) (o : Nat) : Nat := min o d.length

/-- Offset at which a row, counted from zero, starts; rows past the last start at the end. -/
def rowStart (d : Document) (row : Nat) : Nat := ((Text.rows d.text).take row).flatten.length

def byteOffset (d : Document) (o : Nat) : Nat := Text.byteLength (d.text.take o)

def rowByteStart (d : Document) (row : Nat) : Nat :=
  Text.byteLength ((Text.rows d.text).take row).flatten

/-- Row and column of an offset, both from zero. -/
def position (d : Document) (o : Nat) : Nat × Nat :=
  let o := d.clamp o
  let row := (d.text.take o).count '\n'
  (row, o - d.rowStart row)

/-- The line number of an offset, and the text of its row up to it. -/
def beforeCursor (d : Document) (o : Nat) : Nat × List Char :=
  let o := d.clamp o
  let (row, column) := d.position o
  (row + 1, (d.text.drop (o - column)).take column)

end Document

end MetaBlocks
