import MetaBlocks.Decoration
import MetaBlocks.Proofs.Blocks

/-!
Decoration stays inside the document. All that a detection contributes ends by the end of the text,
so bringing both ends of a viewport inside the document does not change what is shown in it.
-/

set_option autoImplicit false
set_option relaxedAutoImplicit false

namespace MetaBlocks

namespace Document

variable {d : Document}

theorem stop_le_nextStart {k : KindedLine} (h : k ∈ d.kindedLines) :
    k.line.stop ≤ k.line.nextStart := by
  obtain ⟨i, hi⟩ := List.mem_iff_getElem?.mp h
  exact (d.line_at (d.kindedLine_at hi).1).2.2.2.2

theorem stop_le_length {k : KindedLine} (h : k ∈ d.kindedLines) : k.line.stop ≤ d.length := by
  obtain ⟨i, hi⟩ := List.mem_iff_getElem?.mp h
  obtain ⟨-, -, hnext, -, hstop⟩ := d.line_at (d.kindedLine_at hi).1
  have hle := d.rowStart_le_length (i + 1)
  omega

theorem kind_eq_ofLine {k : KindedLine} (h : k ∈ d.kindedLines) : k.kind = .ofLine k.line := by
  obtain ⟨i, hi⟩ := List.mem_iff_getElem?.mp h
  exact (d.kindedLine_at hi).2

end Document

variable {r : DetectionRules} {d : Document}

theorem Detection.exists_line_of_mem_delimiters {e : Delimiter}
    (h : e ∈ (ofDocument r d).delimiters) : ∃ k ∈ d.kindedLines, e = k.asDelimiter := by
  obtain ⟨k, hk, rfl⟩ := List.mem_map.mp ((perm_delimiters_ofDocument r d).mem_iff.mp h)
  exact ⟨k, (List.mem_filter.mp hk).1, rfl⟩

theorem Detection.delimiter_stop_le {e : Delimiter} (h : e ∈ (ofDocument r d).delimiters) :
    e.extent.stop ≤ d.length := by
  obtain ⟨k, hk, rfl⟩ := exists_line_of_mem_delimiters h
  exact Document.stop_le_length hk

namespace Block

variable {b : Block}

/-- An extent lies on a line of the block, the line's break included. -/
def OnLine (d : Document) (b : Block) (e : Extent) : Prop :=
  ∃ k ∈ d.kindedLines, b.opening.line ≤ k.line.number ∧ k.line.number ≤ b.closing.line ∧
    k.line.start ≤ e.start ∧ e.stop ≤ k.line.nextStart

private theorem onLine_delimiter {e : Delimiter} (he : e ∈ (Detection.ofDocument r d).delimiters)
    (hlow : b.opening.line ≤ e.line) (hhigh : e.line ≤ b.closing.line) : b.OnLine d e.extent := by
  obtain ⟨k, hk, rfl⟩ := Detection.exists_line_of_mem_delimiters he
  exact ⟨k, hk, hlow, hhigh, Nat.le_refl _, Document.stop_le_nextStart hk⟩

private theorem onLine_of_between {k : KindedLine} {e : Extent}
    (hk : k ∈ d.linesBetween b.opening.line b.closing.line) (hstart : k.line.start ≤ e.start)
    (hstop : e.stop ≤ k.line.stop) : b.OnLine d e := by
  obtain ⟨hmem, hnumber⟩ := List.mem_filter.mp hk
  have hnext := Document.stop_le_nextStart hmem
  simp only [Bool.and_eq_true, decide_eq_true_eq] at hnumber
  exact ⟨k, hmem, by omega, by omega, hstart, by omega⟩

private theorem onLine_of_mem_lineExtents (h : b ∈ (Detection.ofDocument r d).blocks) {e : Extent}
    (he : e ∈ b.lineExtents) : b.OnLine d e := by
  obtain ⟨i, s, t, hs, ht, -, rfl⟩ := exists_sections h
  obtain ⟨-, hnumber, -⟩ := Section.rows_of_run hs ht
  obtain ⟨pre, post, hrun⟩ := Section.exists_run hs ht
  obtain ⟨k, hk, rfl⟩ := List.mem_map.mp he
  obtain ⟨j, hj⟩ := List.mem_iff_getElem?.mp hk
  have hhead := d.number_of_kindedLine_at (Document.kindedLine_at_run hrun (i := 0) rfl)
  have hat := Document.kindedLine_at_run hrun hj
  have hnum := d.number_of_kindedLine_at hat
  have hlen := (List.getElem?_eq_some_iff.mp hj).1
  simp only [List.length_cons, List.length_append, List.length_nil] at hlen
  simp only [OnLine, ofSection, KindedLine.asDelimiter]
  exact ⟨k, List.mem_of_getElem? hat, by omega, by omega, Nat.le_refl _, Nat.le_refl _⟩

private theorem onLine_of_mem_spans (h : b ∈ (Detection.ofDocument r d).blocks) {p : Span}
    (hp : p ∈ b.spans) : b.OnLine d p.extent := by
  have hwf := wellFormed_of_mem h
  have hapart := hwf.apart
  simp only [spans, List.mem_append, List.mem_map, List.mem_cons, List.not_mem_nil, or_false,
    List.mem_flatMap] at hp
  rcases hp with ((⟨e, he, rfl⟩ | rfl | rfl) | ⟨c, hc, hp⟩) | ⟨e, he, hp⟩
  · exact onLine_of_mem_lineExtents h he
  · refine onLine_delimiter (r := r) ?_ (Nat.le_refl _) (by omega)
    simp only [Detection.delimiters, List.mem_append]
    exact .inl (.inl (.inl (List.mem_map_of_mem h)))
  · refine onLine_delimiter (r := r) ?_ (by omega) (Nat.le_refl _)
    simp only [Detection.delimiters, List.mem_append]
    exact .inl (.inl (.inr (List.mem_map_of_mem h)))
  · rw [hwf.declarations] at hc
    obtain ⟨k, hk, hkind⟩ := List.mem_filterMap.mp hc
    rw [Document.kind_eq_ofLine (List.mem_filter.mp hk).1] at hkind
    obtain ⟨hstart, hstop⟩ := LineKind.declaration_within hkind p hp
    exact onLine_of_between hk hstart hstop
  · rw [hwf.entries] at he
    obtain ⟨k, hk, hkind⟩ := List.mem_filterMap.mp he
    rw [Document.kind_eq_ofLine (List.mem_filter.mp hk).1] at hkind
    obtain ⟨hstart, hstop⟩ := LineKind.entry_within hkind p hp
    exact onLine_of_between hk hstart hstop

theorem spans_within (h : b ∈ (Detection.ofDocument r d).blocks) {p : Span} (hp : p ∈ b.spans) :
    b.extent.start ≤ p.extent.start ∧ p.extent.stop ≤ b.extent.stop := by
  obtain ⟨k, hk, hlow, hhigh, hstart, hstop⟩ := onLine_of_mem_spans h hp
  obtain ⟨i, hi⟩ := List.mem_iff_getElem?.mp hk
  obtain ⟨hnumber, hkstart, hnext, -⟩ := d.line_at (d.kindedLine_at hi).1
  have hfirst : d.rowStart (b.opening.line - 1) ≤ d.rowStart i := d.rowStart_mono (by omega)
  have hlast : d.rowStart (i + 1) ≤ d.rowStart b.closing.line := d.rowStart_mono (by omega)
  rw [hkstart] at hstart
  rw [hnext] at hstop
  rw [extent_eq h]
  exact ⟨Nat.le_trans hfirst hstart, Nat.le_trans hstop hlast⟩

theorem spans_stop_le (h : b ∈ (Detection.ofDocument r d).blocks) {p : Span} (hp : p ∈ b.spans) :
    p.extent.stop ≤ d.length := by
  have hin := (spans_within h hp).2
  rw [extent_eq h] at hin
  exact Nat.le_trans hin (d.rowStart_le_length _)

theorem extent_nonempty (h : b ∈ (Detection.ofDocument r d).blocks) :
    b.extent.start < b.extent.stop := by
  have hfirst : d.rowExtent (b.opening.line - 1) ∈ b.lineExtents := by
    rw [lineExtents_eq h, List.range'_succ]
    exact List.mem_cons_self
  have hline := nonempty_of_mem_lineExtents h hfirst
  have hin := (mem_extent_iff h _).mpr ⟨_, hfirst, Nat.le_refl _, hline⟩
  exact Nat.lt_of_le_of_lt hin.1 hin.2

private theorem extent_start_lt (h : b ∈ (Detection.ofDocument r d).blocks) :
    b.extent.start < d.length := by
  have hnonempty := extent_nonempty h
  rw [extent_eq h] at hnonempty ⊢
  exact Nat.lt_of_lt_of_le hnonempty (d.rowStart_le_length _)

end Block

namespace Decoration

private theorem mem_of_mem_visibleBlocks {blocks : List Block} {viewport : Extent} {b : Block}
    (h : b ∈ visibleBlocks blocks viewport) : b ∈ blocks := by
  unfold visibleBlocks at h
  split at h
  · simp at h
  · exact List.mem_of_mem_drop ((List.takeWhile_sublist _).mem h)

private theorem isShown_clamp {n : Nat} {p : Span} (h : p.extent.stop ≤ n) (viewport : Extent) :
    isShown (viewport.clamp n) p = isShown viewport p := by
  rw [Bool.eq_iff_iff]
  simp only [isShown, Span.intersects, Extent.isEmpty, Extent.overlaps, Bool.and_eq_true,
    Bool.not_eq_true', decide_eq_true_eq, decide_eq_false_iff_not]
  simp only [Extent.clamp]
  omega

private theorem takeWhile_congr {blocks : List Block} {f g : Block → Bool}
    (h : ∀ b ∈ blocks, f b = g b) : blocks.takeWhile f = blocks.takeWhile g := by
  induction blocks with
  | nil => rfl
  | cons b blocks ih =>
    rw [List.takeWhile_cons, List.takeWhile_cons, h b List.mem_cons_self,
      ih fun c hc => h c (List.mem_cons_of_mem b hc)]

private theorem visibleBlocks_clamp {n : Nat} {blocks : List Block}
    (h : ∀ b ∈ blocks, b.extent.start < n) {viewport : Extent} (hstart : viewport.start < n) :
    visibleBlocks blocks (viewport.clamp n) = visibleBlocks blocks viewport := by
  have hclamp : (viewport.clamp n).start = viewport.start := Nat.min_eq_left (Nat.le_of_lt hstart)
  have hempty : (viewport.clamp n).isEmpty = viewport.isEmpty := by
    simp only [Extent.isEmpty, decide_eq_decide]
    simp only [Extent.clamp]
    omega
  unfold visibleBlocks
  rw [hempty, hclamp]
  split
  · rfl
  · refine takeWhile_congr fun b hb => ?_
    have hb := h b (List.mem_of_mem_drop hb)
    simp only [decide_eq_decide]
    simp only [Extent.clamp]
    omega

private theorem gathered_stop_le {viewport : Extent} {p : Span}
    (h : p ∈ (visibleBlocks (Detection.ofDocument r d).blocks viewport).flatMap Block.spans ++
      (Detection.ofDocument r d).orphans.map Delimiter.span) : p.extent.stop ≤ d.length := by
  rcases List.mem_append.mp h with h | h
  · obtain ⟨b, hb, hp⟩ := List.mem_flatMap.mp h
    exact Block.spans_stop_le (mem_of_mem_visibleBlocks hb) hp
  · obtain ⟨e, he, rfl⟩ := List.mem_map.mp h
    exact Detection.delimiter_stop_le (List.mem_append_right _ he)

/-- A viewport shows the same when its ends are brought inside the document. -/
theorem ofDetection_clamp (viewport : Extent) :
    ofDetection (Detection.ofDocument r d) (viewport.clamp d.length) =
      ofDetection (Detection.ofDocument r d) viewport := by
  unfold ofDetection
  rw [List.filter_congr fun p hp => isShown_clamp (gathered_stop_le hp) viewport]
  by_cases hstart : viewport.start < d.length
  · rw [visibleBlocks_clamp (fun b hb => Block.extent_start_lt hb) hstart]
  -- Past the end nothing is shown, whichever blocks were looked at.
  · have hnone {w : Extent} : List.filter (isShown viewport)
        ((visibleBlocks (Detection.ofDocument r d).blocks w).flatMap Block.spans ++
          (Detection.ofDocument r d).orphans.map Delimiter.span) = [] := by
      refine List.filter_eq_nil_iff.mpr fun p hp => ?_
      have hstop := gathered_stop_le hp
      simp only [isShown, Span.intersects, Extent.overlaps, Bool.and_eq_true, decide_eq_true_eq]
      omega
    rw [hnone, hnone]

end Decoration

end MetaBlocks
