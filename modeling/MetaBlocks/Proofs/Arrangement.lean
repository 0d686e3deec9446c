import Mathlib.Data.Prod.Lex
import MetaBlocks.Decoration
import MetaBlocks.Proofs.Bisection

/-!
The order of spans. Spans are totally ordered, and lines come before marks in that order, so weaving
the sorted marks between the sorted lines sorts all spans together. What is left out of the spans
is then left out of their arrangement, and nothing else changes.
-/

set_option autoImplicit false
set_option relaxedAutoImplicit false

namespace MetaBlocks

namespace SpanKind

private theorem all_getElem?_rank (k : SpanKind) : all[k.rank]? = some k := by cases k <;> rfl

private theorem rank_injective {k k' : SpanKind} (h : k.rank = k'.rank) : k = k' := by
  have hk := all_getElem?_rank k
  rw [h, all_getElem?_rank k'] at hk
  exact (Option.some.inj hk).symm

private theorem scope_eq_line_iff (k : SpanKind) : k.scope = .line ↔ k.rank = 0 := by
  cases k <;> simp [scope, rank]

end SpanKind

namespace Span

theorem precedes_iff (a b : Span) : a.precedes b = true ↔ a.extent.start < b.extent.start ∨
    a.extent.start = b.extent.start ∧ (a.kind.rank < b.kind.rank ∨
      a.kind.rank = b.kind.rank ∧ a.extent.stop ≤ b.extent.stop) := by
  simp [precedes]

theorem precedes_trans {a b c : Span} (hab : a.precedes b = true) (hbc : b.precedes c = true) :
    a.precedes c = true := by
  rw [precedes_iff] at *
  omega

theorem precedes_total (a b : Span) : (a.precedes b || b.precedes a) = true := by
  rw [Bool.or_eq_true, precedes_iff, precedes_iff]
  omega

theorem precedes_antisymm {a b : Span} (hab : a.precedes b = true) (hba : b.precedes a = true) :
    a = b := by
  rw [precedes_iff] at hab hba
  have hkind : a.kind = b.kind := SpanKind.rank_injective (by omega)
  have hstart : a.extent.start = b.extent.start := by omega
  have hstop : a.extent.stop = b.extent.stop := by omega
  obtain ⟨⟨start, stop⟩, kind⟩ := a
  obtain ⟨⟨start', stop'⟩, kind'⟩ := b
  simp_all

def sortKey (p : Span) : Nat ×ₗ Nat ×ₗ Nat :=
  toLex (p.extent.start, toLex (p.kind.rank, p.extent.stop))

private theorem precedes_iff_sortKey_le (a b : Span) :
    a.precedes b = true ↔ a.sortKey ≤ b.sortKey := by
  rw [precedes_iff, sortKey, sortKey, Prod.Lex.toLex_le_toLex, Prod.Lex.toLex_le_toLex]

private theorem start_le_of_precedes {a b : Span} (h : a.precedes b = true) :
    a.extent.start ≤ b.extent.start := by
  rw [precedes_iff] at h
  omega

theorem line_precedes_mark {l m : Span} (hl : l.scope = .line) (hm : m.scope = .mark)
    (h : l.extent.start ≤ m.extent.start) : l.precedes m = true := by
  have hzero := (SpanKind.scope_eq_line_iff l.kind).mp hl
  have hpos : m.kind.rank ≠ 0 := by
    rw [ne_eq, ← SpanKind.scope_eq_line_iff]
    intro he
    rw [scope, he] at hm
    cases hm
  rw [precedes_iff]
  omega

private theorem ties_of_precedes {a b : Span} (h : a.precedes b = true) :
    a.extent.start ≤ b.extent.start ∧ (a.extent.start = b.extent.start →
      (b.scope = .line → a.scope = .line) ∧ (a.scope = .mark → b.scope = .mark →
        a.kind.rank < b.kind.rank ∨ a.kind = b.kind ∧ a.extent.stop ≤ b.extent.stop)) := by
  refine ⟨start_le_of_precedes h, fun htie => ⟨fun hline => ?_, fun _ _ => ?_⟩⟩
  · rw [scope, SpanKind.scope_eq_line_iff] at hline ⊢
    rw [precedes_iff] at h
    omega
  · rw [precedes_iff] at h
    rcases Nat.lt_or_ge a.kind.rank b.kind.rank with hrank | hrank
    · exact .inl hrank
    · exact .inr ⟨SpanKind.rank_injective (by omega), by omega⟩

end Span

namespace Decoration

abbrev Ordered (ps : List Span) : Prop := ps.Pairwise fun a b => a.precedes b = true

private theorem ordered_mergeSort (ps : List Span) : Ordered (ps.mergeSort Span.precedes) :=
  List.pairwise_mergeSort (fun a b _ hab hbc => Span.precedes_trans (a := a) (b := b) hab hbc)
    Span.precedes_total ps

theorem eq_of_perm_of_ordered {ps qs : List Span} (h : ps.Perm qs) (hp : Ordered ps)
    (hq : Ordered qs) : ps = qs :=
  h.eq_of_pairwise (fun _ _ _ _ => Span.precedes_antisymm) hp hq

private theorem weave_perm (lines marks : List Span) :
    (weave lines marks).Perm (lines ++ marks) := by
  induction lines generalizing marks with
  | nil => exact .refl _
  | cons l lines ih =>
    let isEarlier := fun m : Span => decide (m.extent.start < l.extent.start)
    have hmarks := List.takeWhile_append_dropWhile (p := isEarlier) (l := marks)
    calc weave (l :: lines) marks
        = marks.takeWhile isEarlier ++ l :: weave lines (marks.dropWhile isEarlier) := rfl
      _ |>.Perm (l :: (marks.takeWhile isEarlier ++ weave lines (marks.dropWhile isEarlier))) :=
        List.perm_middle
      _ |>.Perm (l :: (marks.takeWhile isEarlier ++ (lines ++ marks.dropWhile isEarlier))) :=
        ((ih _).append_left _).cons l
      _ |>.Perm (l :: (lines ++ (marks.takeWhile isEarlier ++ marks.dropWhile isEarlier))) := by
        rw [← List.append_assoc, ← List.append_assoc]
        exact (List.perm_append_comm.append_right _).cons l
      _ = l :: lines ++ marks := by rw [hmarks, List.cons_append]

private theorem ordered_weave {lines marks : List Span} (hlines : Ordered lines)
    (hmarks : Ordered marks) (hline : ∀ l ∈ lines, l.scope = .line)
    (hmark : ∀ m ∈ marks, m.scope = .mark) :
    Ordered (weave lines marks) := by
  induction lines generalizing marks with
  | nil => exact hmarks
  | cons l lines ih =>
    let isEarlier := fun m : Span => decide (m.extent.start < l.extent.start)
    obtain ⟨hfirst, hlines⟩ := List.pairwise_cons.mp hlines
    have hlater : marks.dropWhile isEarlier = marks.filter fun m => !isEarlier m := by
      refine Bisect.dropWhile_eq_filter (hmarks.imp fun {a b} hab hb => ?_)
      have hle := Span.start_le_of_precedes hab
      simp only [isEarlier, decide_eq_true_eq] at hb ⊢
      omega
    have hsplit : Ordered (marks.takeWhile isEarlier ++ marks.dropWhile isEarlier) := by
      rw [List.takeWhile_append_dropWhile]
      exact hmarks
    obtain ⟨hearly, hlate, hacross⟩ := List.pairwise_append.mp hsplit
    have hmem {p : Span} (hp : p ∈ weave lines (marks.dropWhile isEarlier)) :
        p ∈ lines ∨ p ∈ marks.dropWhile isEarlier :=
      List.mem_append.mp ((weave_perm lines _).mem_iff.mp hp)
    have hl : ∀ p ∈ weave lines (marks.dropWhile isEarlier), l.precedes p = true := by
      intro p hp
      rcases hmem hp with hp | hp
      · exact hfirst p hp
      · rw [hlater, List.mem_filter] at hp
        refine Span.line_precedes_mark (hline l List.mem_cons_self) (hmark p hp.1) ?_
        simpa [isEarlier] using hp.2
    refine List.pairwise_append.mpr ⟨hearly, List.pairwise_cons.mpr ⟨hl, ?_⟩, ?_⟩
    · exact ih hlines hlate (fun p hp => hline p (List.mem_cons_of_mem l hp))
        (fun p hp => hmark p ((List.dropWhile_sublist _).mem hp))
    · intro m hm p hp
      have hlt : m.extent.start < l.extent.start := by
        simpa [isEarlier] using List.mem_takeWhile_imp hm
      have hml : m.precedes l = true := (Span.precedes_iff m l).mpr (.inl hlt)
      rcases List.mem_cons.mp hp with rfl | hp
      · exact hml
      · rcases hmem hp with hp | hp
        · exact Span.precedes_trans hml (hfirst p hp)
        · exact hacross m hm p hp

theorem arrange_perm (ps : List Span) : (arrange ps).Perm ps := by
  have hmark : (ps.filter fun p => decide (p.scope = .mark)) =
      ps.filter fun p => !decide (p.scope = .line) := by
    refine List.filter_congr fun p _ => ?_
    cases p.scope <;> rfl
  refine (weave_perm _ _).trans (.trans ?_ (List.filter_append_perm (·.scope = .line) ps))
  rw [← hmark]
  exact (List.mergeSort_perm _ _).append (List.mergeSort_perm _ _)

theorem arrange_nil : arrange [] = [] := (arrange_perm []).eq_nil

theorem ordered_arrange (ps : List Span) : Ordered (arrange ps) := by
  refine ordered_weave (ordered_mergeSort _) (ordered_mergeSort _) ?_ ?_
  · intro l hl
    simpa using (List.mem_filter.mp ((List.mergeSort_perm _ _).mem_iff.mp hl)).2
  · intro m hm
    simpa using (List.mem_filter.mp ((List.mergeSort_perm _ _).mem_iff.mp hm)).2

/-- Sorting lines and marks apart and weaving them is sorting all spans together. -/
theorem arrange_eq_mergeSort (ps : List Span) :
    arrange ps = ps.mergeSort fun a b => decide (a.sortKey ≤ b.sortKey) := by
  have hkey : (fun a b : Span => decide (a.sortKey ≤ b.sortKey)) = Span.precedes := by
    funext a b
    rw [Bool.eq_iff_iff, decide_eq_true_eq, Span.precedes_iff_sortKey_le]
  rw [hkey]
  exact eq_of_perm_of_ordered ((arrange_perm ps).trans (List.mergeSort_perm ps _).symm)
    (ordered_arrange ps) (ordered_mergeSort ps)

theorem arrange_filter (test : Span → Bool) (ps : List Span) :
    arrange (ps.filter test) = (arrange ps).filter test :=
  eq_of_perm_of_ordered
    ((arrange_perm _).trans ((arrange_perm ps).filter test).symm)
    (ordered_arrange _) ((ordered_arrange ps).filter test)

/-- What the visited blocks and the orphans contribute, less the spans that are empty and those that
share no character with the viewport. -/
def contributed (x : Detection) (viewport : Extent) : List Span :=
  ((visibleBlocks x.blocks viewport).flatMap Block.spans ++ x.orphans.map Delimiter.span).filter
    fun p => p.extent.start < p.extent.stop ∧ viewport.start < viewport.stop ∧
      p.extent.start < viewport.stop ∧ viewport.start < p.extent.stop

private theorem ofDetection_eq_arrange_contributed (x : Detection) (viewport : Extent) :
    ofDetection x viewport = arrange (contributed x viewport) := by
  rw [ofDetection, contributed]
  congr 1
  refine List.filter_congr fun p _ => ?_
  rw [Bool.eq_iff_iff]
  simp [isShown, Span.intersects, Extent.isEmpty, Extent.overlaps]

/-- The decoration of any blocks and orphans in any viewport is the one sorted arrangement of the
spans that they contribute to it. -/
theorem ofDetection_sorts_contributed (x : Detection) (viewport : Extent) :
    (∀ ps, ofDetection x viewport = ps ↔ ps.Perm (contributed x viewport) ∧
      ps.Pairwise fun a b => a.sortKey ≤ b.sortKey) ∧
    ofDetection x viewport =
      (contributed x viewport).mergeSort (fun a b => a.sortKey ≤ b.sortKey) ∧
    (ofDetection x viewport).Pairwise fun a b =>
      a.extent.start ≤ b.extent.start ∧ (a.extent.start = b.extent.start →
        (b.scope = .line → a.scope = .line) ∧ (a.scope = .mark → b.scope = .mark →
          a.kind.rank < b.kind.rank ∨ a.kind = b.kind ∧ a.extent.stop ≤ b.extent.stop)) := by
  rw [ofDetection_eq_arrange_contributed]
  have hordered := ordered_arrange (contributed x viewport)
  refine ⟨fun ps => ⟨?_, ?_⟩, arrange_eq_mergeSort _, hordered.imp Span.ties_of_precedes⟩
  · rintro rfl
    exact ⟨arrange_perm _, hordered.imp (Span.precedes_iff_sortKey_le _ _).mp⟩
  · rintro ⟨hperm, hsorted⟩
    exact eq_of_perm_of_ordered ((arrange_perm _).trans hperm.symm) hordered
      (hsorted.imp (Span.precedes_iff_sortKey_le _ _).mpr)

end Decoration

end MetaBlocks
