import MetaBlocks.Proofs.Arrangement
import MetaBlocks.Proofs.Viewport

/-!
A viewport cuts the spans that it meets out of the decoration of the whole document. Blocks that
the search for the first visible one skips, and those after the last, contribute only spans that the
viewport does not meet, since every span lies within its block and blocks go down the text.
-/

set_option autoImplicit false
set_option relaxedAutoImplicit false

namespace MetaBlocks

abbrev Block.Descending (blocks : List Block) : Prop :=
  blocks.Pairwise fun a b => a.extent.start ≤ b.extent.start ∧ a.extent.stop ≤ b.extent.stop

theorem Detection.blocks_apart (r : DetectionRules) (d : Document) :
    (ofDocument r d).blocks.Pairwise fun a b => a.extent.stop ≤ b.extent.start := by
  refine (blocks_sorted r d).2.imp_of_mem fun {a b} ha hb hlt => ?_
  rw [Block.extent_eq ha, Block.extent_eq hb]
  exact d.rowStart_mono (by omega)

theorem Detection.blocks_descending (r : DetectionRules) (d : Document) :
    Block.Descending (ofDocument r d).blocks := by
  refine (blocks_apart r d).imp_of_mem fun {a b} ha hb hapart => ?_
  have hupper := Block.extent_nonempty ha
  have hlower := Block.extent_nonempty hb
  omega

namespace Decoration

variable {blocks : List Block} {viewport : Extent}

/-- The blocks found by bisection and walking on are the ones that meet the viewport. -/
theorem visibleBlocks_eq_filter (h : Block.Descending blocks) (hview : viewport.isEmpty = false) :
    visibleBlocks blocks viewport = blocks.filter fun b => b.intersects viewport := by
  have hbefore : blocks.Pairwise fun a b => decide (b.extent.stop ≤ viewport.start) = true →
      decide (a.extent.stop ≤ viewport.start) = true :=
    h.imp fun hab hb => by
      simp only [decide_eq_true_eq] at hb ⊢
      omega
  have hafter : blocks.Pairwise fun a b => decide (b.extent.start < viewport.stop) = true →
      decide (a.extent.start < viewport.stop) = true :=
    h.imp fun hab hb => by
      simp only [decide_eq_true_eq] at hb ⊢
      omega
  simp only [visibleBlocks, hview, Bool.false_eq_true, ↓reduceIte]
  rw [Bisect.drop_partitionPoint hbefore, Bisect.takeWhile_eq_filter (hafter.filter _),
    List.filter_filter]
  refine List.filter_congr fun b _ => ?_
  rw [Bool.eq_iff_iff]
  simp [Block.intersects, Extent.overlaps]

private theorem isShown_eq_false (hview : viewport.isEmpty = true) :
    isShown viewport = fun _ => false := by
  funext p
  simp [isShown, Span.intersects, hview]

private theorem intersects_of_isShown {b : Block} {p : Span}
    (hstart : b.extent.start ≤ p.extent.start) (hstop : p.extent.stop ≤ b.extent.stop)
    (h : isShown viewport p = true) :
    b.intersects viewport = true := by
  simp only [isShown, Span.intersects, Block.intersects, Extent.overlaps, Bool.and_eq_true,
    decide_eq_true_eq] at h ⊢
  omega

/-- Looking only at the visible blocks loses nothing that is shown. -/
theorem filter_isShown_visible (h : Block.Descending blocks)
    (hin : ∀ b ∈ blocks, ∀ p ∈ b.spans,
      b.extent.start ≤ p.extent.start ∧ p.extent.stop ≤ b.extent.stop) (viewport : Extent) :
    ((visibleBlocks blocks viewport).flatMap Block.spans).filter (isShown viewport) =
      (blocks.flatMap Block.spans).filter (isShown viewport) := by
  cases hview : viewport.isEmpty with
  | true => rw [isShown_eq_false hview, List.filter_false, List.filter_false]
  | false =>
    rw [visibleBlocks_eq_filter h hview]
    clear h
    induction blocks with
    | nil => rfl
    | cons b blocks ih =>
      have ih := ih fun c hc => hin c (List.mem_cons_of_mem b hc)
      rw [List.flatMap_cons, List.filter_append, ← ih]
      by_cases hb : b.intersects viewport
      · rw [List.filter_cons, if_pos hb, List.flatMap_cons, List.filter_append]
      · have hnone : b.spans.filter (isShown viewport) = [] := by
          refine List.filter_eq_nil_iff.mpr fun p hp hshown => hb ?_
          obtain ⟨hstart, hstop⟩ := hin b List.mem_cons_self p hp
          exact intersects_of_isShown hstart hstop hshown
        rw [List.filter_cons, if_neg hb, hnone, List.nil_append]

private theorem arrange_isShown {n : Nat} {ps : List Span} (h : ∀ p ∈ ps, p.extent.stop ≤ n)
    (viewport : Extent) : arrange (ps.filter (isShown viewport)) =
      (arrange (ps.filter (isShown ⟨0, n⟩))).filter fun p => p.intersects viewport := by
  rw [← arrange_filter, List.filter_filter]
  congr 1
  refine List.filter_congr fun p hp => ?_
  have hstop := h p hp
  rw [Bool.eq_iff_iff]
  simp only [isShown, Span.intersects, Extent.isEmpty, Extent.overlaps, Bool.and_eq_true,
    Bool.not_eq_true', decide_eq_true_eq, decide_eq_false_iff_not]
  omega

variable (r : DetectionRules) (d : Document)

theorem ofBlocks_eq (viewport : Extent) : ofBlocks (Detection.ofDocument r d).blocks viewport =
    arrange (((Detection.ofDocument r d).blocks.flatMap Block.spans).filter (isShown viewport)) := by
  rw [ofBlocks, filter_isShown_visible (Detection.blocks_descending r d) fun b hb p hp =>
    Block.spans_within hb hp]

theorem ofDetection_eq (viewport : Extent) : ofDetection (Detection.ofDocument r d) viewport =
    arrange (((Detection.ofDocument r d).blocks.flatMap Block.spans ++
      (Detection.ofDocument r d).orphans.map Delimiter.span).filter (isShown viewport)) := by
  rw [ofDetection, List.filter_append, List.filter_append,
    filter_isShown_visible (Detection.blocks_descending r d) fun b hb p hp =>
      Block.spans_within hb hp]

/-- Decorating a viewport gives, in order, what the viewport meets of the decoration of the whole
document; an empty or reversed viewport meets nothing. -/
theorem viewport_cuts_decoration (viewport : Extent) :
    ofDetection (Detection.ofDocument r d) viewport =
        (ofDetection (Detection.ofDocument r d) ⟨0, d.length⟩).filter
          (fun p => p.intersects viewport) ∧
      ofBlocks (Detection.ofDocument r d).blocks viewport =
        (ofBlocks (Detection.ofDocument r d).blocks ⟨0, d.length⟩).filter
          (fun p => p.intersects viewport) ∧
      (viewport.stop ≤ viewport.start → ofDetection (Detection.ofDocument r d) viewport = [] ∧
        ofBlocks (Detection.ofDocument r d).blocks viewport = []) := by
  have hblocks : ∀ p ∈ (Detection.ofDocument r d).blocks.flatMap Block.spans,
      p.extent.stop ≤ d.length := by
    intro p hp
    obtain ⟨b, hb, hp⟩ := List.mem_flatMap.mp hp
    exact Block.spans_stop_le hb hp
  have horphans : ∀ p ∈ (Detection.ofDocument r d).orphans.map Delimiter.span,
      p.extent.stop ≤ d.length := by
    intro p hp
    obtain ⟨e, he, rfl⟩ := List.mem_map.mp hp
    exact Detection.delimiter_stop_le (List.mem_append_right _ he)
  rw [ofDetection_eq, ofDetection_eq, ofBlocks_eq, ofBlocks_eq]
  refine ⟨?_, arrange_isShown hblocks viewport, fun hempty => ?_⟩
  · refine arrange_isShown (fun p hp => ?_) viewport
    exact (List.mem_append.mp hp).elim (hblocks p) (horphans p)
  · rw [isShown_eq_false (decide_eq_true hempty), List.filter_false, List.filter_false]
    exact ⟨arrange_nil, arrange_nil⟩

theorem viewport_cuts_decoration_reversed :
    let d := Document.ofText "---\nSCOPE: a\n---\n\n---\n".toList
    let viewport : Extent := ⟨12, 3⟩
    viewport.stop ≤ viewport.start ∧ ofDetection (Detection.ofDocument {} d) viewport = [] ∧
      ofBlocks (Detection.ofDocument {} d).blocks viewport = [] := by
  intro d viewport
  have hreversed : viewport.stop ≤ viewport.start := by decide
  exact ⟨hreversed, (viewport_cuts_decoration {} d viewport).2.2 hreversed⟩

-- A viewport that ends where a line starts does not show that line.
example : (ofDetection (.ofDocument {} (.ofText "---\nSCOPE: a\n---\n".toList)) ⟨3, 4⟩).map
    (fun p => (p.extent.start, p.extent.stop)) = [(0, 4)] := by decide +kernel

end Decoration

end MetaBlocks
