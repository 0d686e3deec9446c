import MetaBlocks.LineKind

/-!
Sections: a delimiter line with the lines that follow it up to the next delimiter. Detection
decides over sections, so it never needs an index into the document.
-/

set_option autoImplicit false
set_option relaxedAutoImplicit false

namespace MetaBlocks

structure KindedLine where
  line : Line
  kind : LineKind
  deriving DecidableEq, Repr, Inhabited

namespace KindedLine

def ofLine (l : Line) : KindedLine := ⟨l, .ofLine l⟩

def isBlank (l : KindedLine) : Bool := l.kind = .blank

def isDelimiter (l : KindedLine) : Bool := l.kind = .delimiter

def qualifies (l : KindedLine) : Bool := l.kind.qualifies

def asDelimiter (l : KindedLine) : Delimiter := ⟨l.line.number, ⟨l.line.start, l.line.stop⟩⟩

def fullExtent (l : KindedLine) : Extent := ⟨l.line.start, l.line.nextStart⟩

end KindedLine

def Document.kindedLines (d : Document) : List KindedLine := d.lines.map .ofLine

/-- A delimiter line in its place. -/
structure Section where
  /-- The line above, if there is one. -/
  above : Option KindedLine
  head : KindedLine
  /-- The lines up to the next delimiter or the end of the document. -/
  body : List KindedLine
  deriving DecidableEq, Repr, Inhabited

namespace Section

def qualifies (s : Section) : Bool := s.body.any KindedLine.qualifies

/-- The sections of a list of lines that follow the given one. -/
def ofLines (above : Option KindedLine) : List KindedLine → List Section
  | [] => []
  | l :: ls =>
    if l.isDelimiter then
      ⟨above, l, ls.takeWhile fun m => !m.isDelimiter⟩ :: ofLines (some l) ls
    else ofLines (some l) ls

end Section

/-- The sections of a document, in order; what stands before the first delimiter is in none. -/
def Document.sections (d : Document) : List Section := Section.ofLines none d.kindedLines

end MetaBlocks
