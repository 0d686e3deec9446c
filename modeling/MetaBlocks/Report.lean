import MetaBlocks.Engine

/-!
A report on one document: what was detected, what a viewport shows, and on request the fold of a
line and the candidates at a cursor.
-/

set_option autoImplicit false
set_option relaxedAutoImplicit false

namespace MetaBlocks

structure Request where
  /-- The part of the text to decorate; all of it if absent. -/
  viewport : Option Extent := none
  foldLine : Option Nat := none
  cursor : Option Nat := none
  catalog : Catalog := []
  deriving DecidableEq, Repr, Inhabited

structure FoldReport where
  line : Nat
  fold : Option Fold
  deriving DecidableEq, Repr, Inhabited

structure CompletionReport where
  cursor : Nat
  context : Option CompletionContext
  candidates : List Candidate
  deriving DecidableEq, Repr, Inhabited

structure Report where
  lineCount : Nat
  length : Nat
  detection : Detection
  viewport : Extent
  spans : List Span
  fold : Option FoldReport := none
  completion : Option CompletionReport := none
  deriving DecidableEq, Repr, Inhabited

namespace Report

/-- The viewport of a request, with both ends inside the document. -/
def viewportOf (r : Request) (d : Document) : Extent :=
  match r.viewport with
  | some v => ⟨d.clamp v.start, d.clamp v.stop⟩
  | none => ⟨0, d.length⟩

def foldOf (e : Engine) (d : Document) (r : Request) : Option FoldReport × Engine :=
  match r.foldLine with
  | some line =>
    let (fold, e) := e.foldAt? d line
    (some ⟨line, fold⟩, e)
  | none => (none, e)

def completionOf (e : Engine) (d : Document) (r : Request) : Option CompletionReport × Engine :=
  match r.cursor with
  | some c =>
    let cursor := d.clamp c
    let (candidates, e) := e.complete d cursor r.catalog
    (some ⟨cursor, CompletionContext.atCursor? d cursor, candidates⟩, e)
  | none => (none, e)

def build (e : Engine) (d : Document) (r : Request) : Report × Engine :=
  let viewport := viewportOf r d
  let (detection, e) := e.detect d
  let (spans, e) := e.decorate d viewport
  let (fold, e) := foldOf e d r
  let (completion, e) := completionOf e d r
  ({ lineCount := d.lineCount, length := d.length, detection, viewport, spans, fold, completion },
    e)

end Report

end MetaBlocks
