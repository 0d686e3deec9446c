import MetaBlocks.Extent
import MetaBlocks.ValueType

/-!
The parts of a metadata block. A block stands between two delimiter lines and holds keyword lines
and entries; every part knows its line and the extent of characters it covers.
-/

set_option autoImplicit false
set_option relaxedAutoImplicit false

namespace MetaBlocks

inductive Keyword where
  | scope
  | quill
  deriving DecidableEq, Repr, Inhabited

namespace Keyword

def word : Keyword → List Char
  | scope => "SCOPE".toList
  | quill => "QUILL".toList

def ofKey? (key : List Char) : Option Keyword :=
  if key = word scope then some scope else if key = word quill then some quill else none

end Keyword

/-- A line of three or more dashes. -/
structure Delimiter where
  line : Nat
  /-- The line's text, without its break. -/
  extent : Extent
  deriving DecidableEq, Repr, Inhabited

/-- A keyword line: a keyword and the name given to it, which is empty while it is being typed. -/
structure Declaration where
  keyword : Keyword
  line : Nat
  keywordExtent : Extent
  name : List Char
  nameExtent : Extent
  deriving DecidableEq, Repr, Inhabited

/-- A `key: value` line whose key is no keyword. -/
structure Entry where
  line : Nat
  key : List Char
  keyExtent : Extent
  value : List Char
  valueExtent : Extent
  type : ValueType
  deriving DecidableEq, Repr, Inhabited

/-- Two delimiters with at least one keyword line or entry between them. -/
structure Block where
  opening : Delimiter
  closing : Delimiter
  /-- Numbers of the lines between the delimiters. -/
  bodyLines : Extent
  /-- From the first character after the opening line to the end of the last body line's text. -/
  bodyExtent : Extent
  /-- Each line from the opening to the closing one, with its break. -/
  lineExtents : List Extent
  declarations : List Declaration
  entries : List Entry
  deriving DecidableEq, Repr, Inhabited

namespace Block

def containsLine (b : Block) (line : Nat) : Bool := b.opening.line ≤ line && line ≤ b.closing.line

/-- The characters from the opening delimiter to the closing one's line break. -/
def extent (b : Block) : Extent :=
  ⟨b.opening.extent.start, (b.lineExtents.getLast?.map Extent.stop).getD b.closing.extent.stop⟩

def intersects (b : Block) (e : Extent) : Bool := b.extent.overlaps e

def declaration? (b : Block) (k : Keyword) : Option Declaration :=
  b.declarations.find? fun d => d.keyword = k

def name? (b : Block) (k : Keyword) : Option (List Char) := (b.declaration? k).map (·.name)

def entry? (b : Block) (key : List Char) : Option Entry := b.entries.find? fun e => e.key = key

end Block

end MetaBlocks
