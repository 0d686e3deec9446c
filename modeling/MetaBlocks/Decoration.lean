import MetaBlocks.Bisect
import MetaBlocks.Detection
import MetaBlocks.Span

/-!
Decoration: the spans of the blocks that meet a viewport.

Whole-line spans and marks are sorted apart and then woven together, a line span before the marks
that start where it starts, so that a host never meets a token before the line it stands on.
-/

set_option autoImplicit false
set_option relaxedAutoImplicit false

namespace MetaBlocks

def Delimiter.span (d : Delimiter) : Span := ⟨d.extent, .delimiter⟩

def Declaration.spans (d : Declaration) : List Span :=
  [⟨d.keywordExtent, .ofKeyword d.keyword⟩, ⟨d.nameExtent, .identifier⟩]

def Entry.spans (e : Entry) : List Span :=
  [⟨e.keyExtent, .yamlKey⟩, ⟨e.valueExtent, .ofValueType e.type⟩]

def Block.spans (b : Block) : List Span :=
  b.lineExtents.map (⟨·, .blockBackground⟩) ++ [b.opening.span, b.closing.span] ++
    b.declarations.flatMap Declaration.spans ++ b.entries.flatMap Entry.spans

namespace Decoration

/-- The blocks that meet a viewport: the first is found by bisection, the rest follow it. -/
def visibleBlocks (blocks : List Block) (viewport : Extent) : List Block :=
  if viewport.isEmpty then []
  else
    let first := Bisect.partitionPoint (fun b => b.extent.stop ≤ viewport.start) blocks
    (blocks.drop first).takeWhile fun b => b.extent.start < viewport.stop

def isShown (viewport : Extent) (s : Span) : Bool := !s.extent.isEmpty && s.intersects viewport

/-- Marks between line spans: before each line span the marks that start earlier. -/
def weave : List Span → List Span → List Span
  | [], marks => marks
  | l :: ls, marks =>
    let isEarlier := fun m : Span => decide (m.extent.start < l.extent.start)
    marks.takeWhile isEarlier ++ l :: weave ls (marks.dropWhile isEarlier)

def arrange (spans : List Span) : List Span :=
  weave ((spans.filter fun s => s.scope = .line).mergeSort Span.precedes)
    ((spans.filter fun s => s.scope = .mark).mergeSort Span.precedes)

def ofBlocks (blocks : List Block) (viewport : Extent) : List Span :=
  arrange (((visibleBlocks blocks viewport).flatMap Block.spans).filter (isShown viewport))

/-- The spans of a detection in a viewport; an orphan shows its delimiter. -/
def ofDetection (x : Detection) (viewport : Extent) : List Span :=
  arrange (((visibleBlocks x.blocks viewport).flatMap Block.spans ++
    x.orphans.map Delimiter.span).filter (isShown viewport))

end Decoration

end MetaBlocks
