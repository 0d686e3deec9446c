import MetaBlocks.Proofs.LineSpans

/-!
How the spans of a document lie over each other. Backgrounds tile the blocks line by line, marks lie
apart from each other within the text of single lines, and in the list every mark of a block comes
right after the background it lies on, before the next background. The mark of an orphan lies on no
background. A host can therefore insert the spans in order.
-/

set_option autoImplicit false
set_option relaxedAutoImplicit false

namespace MetaBlocks

private theorem SpanKind.scope_eq_line_iff_background (k : SpanKind) :
    k.scope = .line ↔ k = .blockBackground := by
  cases k <;> simp [scope]

namespace Document

variable {d : Document}

private theorem feed_not_mem_slice {l : Line} (hl : l ∈ d.lines) {e : Extent}
    (hstart : l.start ≤ e.start) (hstop : e.stop ≤ l.stop) : '\n' ∉ d.slice e := by
  intro hfeed
  obtain ⟨o, hlow, hhigh, ho⟩ := mem_slice_iff.mp hfeed
  have htext : '\n' ∈ l.text := by
    rw [← slice_text hl]
    exact mem_slice_iff.mpr ⟨o, Nat.le_trans hstart hlow, Nat.lt_of_lt_of_le hhigh hstop, ho⟩
  obtain ⟨c, -, rfl⟩ := exists_cut_of_mem_lines hl
  exact c.clean htext

end Document

private theorem Block.lineExtents_eq_map {r : DetectionRules} {d : Document} {b : Block}
    (h : b ∈ (Detection.ofDocument r d).blocks) :
    b.lineExtents = (d.linesOf b).map KindedLine.fullExtent := by
  obtain ⟨i, s, t, hs, ht, -, rfl⟩ := exists_sections h
  rw [Document.linesOf_ofSection hs ht]
  rfl

namespace Decoration

/-- What a host relies on in the spans of a whole document. -/
structure Nested (d : Document) (x : Detection) (spans : List Span) : Prop where
  /-- There is one background for each line of a block. -/
  backgrounds : (spans.filter fun p => p.kind = .blockBackground) =
    (d.lines.filter fun l => x.blocks.any fun b => b.containsLine l.number).map
      fun l => ⟨⟨l.start, l.nextStart⟩, .blockBackground⟩
  backgrounds_apart : (spans.filter fun p => p.kind = .blockBackground).Pairwise
    fun p q => p.extent.stop ≤ q.extent.start
  /-- The backgrounds cover what the blocks cover. -/
  covered : ∀ o, (∃ p ∈ spans, p.kind = .blockBackground ∧ p.extent.start ≤ o ∧ o < p.extent.stop) ↔
    ∃ b ∈ x.blocks, b.extent.start ≤ o ∧ o < b.extent.stop
  marks_apart : (spans.filter fun p => p.scope = .mark).Pairwise
    fun p q => p.extent.stop ≤ q.extent.start
  mark_text : ∀ m ∈ spans, m.scope = .mark → m.extent.start < m.extent.stop ∧
    m.extent.stop ≤ d.length ∧ '\n' ∉ d.slice m.extent
  /-- A mark of a block lies on the last background before it, and clear of all spans before that
  background and after the mark. -/
  mark_under : ∀ m ∈ spans, m.scope = .mark → m ∉ x.orphans.map Delimiter.span →
    ∃ before p between after, spans = before ++ p :: (between ++ m :: after) ∧
      p.kind = .blockBackground ∧ p.extent.start ≤ m.extent.start ∧ m.extent.stop ≤ p.extent.stop ∧
      (∀ q ∈ between, q.scope = .mark) ∧
      (∀ q ∈ before, q.extent.stop ≤ m.extent.start) ∧
      ∀ q ∈ after, m.extent.stop ≤ q.extent.start
  orphan_clear : ∀ e ∈ x.orphans, e.span ∈ spans ∧ ∀ p ∈ spans, p.kind = .blockBackground →
    p.extent.stop ≤ e.extent.start ∨ e.extent.stop ≤ p.extent.start

section

variable {r : DetectionRules} {d : Document}

private theorem filter_background_lineSpans {k : KindedLine} (hk : k ∈ d.kindedLines) :
    (((Detection.ofDocument r d).lineSpans k).filter fun p => p.kind = .blockBackground) =
      if (Detection.ofDocument r d).covers k then [k.background] else [] := by
  have hmarks : ∀ p ∈ k.marks, ¬p.kind = .blockBackground := by
    intro p hp hline
    rw [← SpanKind.scope_eq_line_iff_background] at hline
    have hmark : p.kind.scope = .mark := (KindedLine.mark_on_line hk hp).1
    rw [hline] at hmark
    cases hmark
  rcases Detection.lineSpans_cases r hk with ⟨hcovers, hblock⟩ | ⟨hcovers, ⟨-, horphan⟩ | ⟨-, hnone⟩⟩
  · rw [hblock, if_pos hcovers, List.filter_cons_of_pos (by simp [KindedLine.background]),
      List.filter_eq_nil_iff.mpr]
    intro p hp
    simpa using hmarks p (List.mem_filter.mp hp).1
  · rw [horphan, hcovers]
    rfl
  · rw [hnone, hcovers]
    rfl

private theorem filter_background :
    ((d.kindedLines.flatMap (Detection.ofDocument r d).lineSpans).filter
      fun p => p.kind = .blockBackground) =
      (d.kindedLines.filter (Detection.ofDocument r d).covers).map KindedLine.background := by
  rw [List.filter_flatMap, List.flatMap_congr fun k hk => filter_background_lineSpans hk, flatMap_ite,
    List.map_eq_flatMap]

private theorem mem_background_iff {p : Span} :
    (p ∈ d.kindedLines.flatMap (Detection.ofDocument r d).lineSpans ∧ p.kind = .blockBackground) ↔
      ∃ k ∈ d.kindedLines, (Detection.ofDocument r d).covers k = true ∧ k.background = p := by
  have hfilter := congrArg (p ∈ ·) (filter_background (r := r) (d := d))
  simpa [and_assoc] using hfilter

private theorem exists_background_iff (o : Nat) :
    (∃ p ∈ d.kindedLines.flatMap (Detection.ofDocument r d).lineSpans,
        p.kind = .blockBackground ∧ p.extent.start ≤ o ∧ o < p.extent.stop) ↔
      ∃ b ∈ (Detection.ofDocument r d).blocks, b.extent.start ≤ o ∧ o < b.extent.stop := by
  constructor
  · rintro ⟨p, hp, hkind, hstart, hstop⟩
    obtain ⟨k, hk, hcovers, rfl⟩ := mem_background_iff.mp ⟨hp, hkind⟩
    obtain ⟨b, hb, hin⟩ := List.any_eq_true.mp hcovers
    refine ⟨b, hb, (Block.mem_extent_iff hb o).mpr ⟨k.fullExtent, ?_, hstart, hstop⟩⟩
    rw [Block.lineExtents_eq_map hb]
    exact List.mem_map_of_mem (List.mem_filter.mpr ⟨hk, hin⟩)
  · rintro ⟨b, hb, ho⟩
    obtain ⟨e, he, hstart, hstop⟩ := (Block.mem_extent_iff hb o).mp ho
    rw [Block.lineExtents_eq_map hb] at he
    obtain ⟨k, hk, rfl⟩ := List.mem_map.mp he
    obtain ⟨hmem, hin⟩ := List.mem_filter.mp hk
    have hcovers : (Detection.ofDocument r d).covers k = true := List.any_eq_true.mpr ⟨b, hb, hin⟩
    obtain ⟨hp, hkind⟩ := mem_background_iff.mpr ⟨k, hmem, hcovers, rfl⟩
    exact ⟨k.background, hp, hkind, hstart, hstop⟩

private theorem mark_within {k : KindedLine} (hk : k ∈ d.kindedLines) {m : Span}
    (hm : m ∈ (Detection.ofDocument r d).lineSpans k) (hmark : m.scope = .mark) :
    k.line.start ≤ m.extent.start ∧ m.extent.stop ≤ k.line.stop := by
  rcases Detection.lineSpans_cases r hk with ⟨-, hblock⟩ | ⟨-, ⟨-, horphan⟩ | ⟨-, hnone⟩⟩
  · rw [hblock] at hm
    rcases List.mem_cons.mp hm with rfl | hm
    · cases hmark
    · exact (KindedLine.mark_on_line hk (List.mem_filter.mp hm).1).2
  · rw [horphan, List.mem_singleton] at hm
    rw [hm]
    exact ⟨Nat.le_refl _, Nat.le_refl _⟩
  · simp [hnone] at hm

/-- In the list, a mark of a block stands after the background of its line, with only marks of that
line between the two. -/
private theorem exists_split_at_mark {m : Span}
    (hm : m ∈ d.kindedLines.flatMap (Detection.ofDocument r d).lineSpans) (hmark : m.scope = .mark)
    (horphan : m ∉ (Detection.ofDocument r d).orphans.map Delimiter.span) :
    ∃ k ∈ d.kindedLines, ∃ before between after,
      d.kindedLines.flatMap (Detection.ofDocument r d).lineSpans =
        before ++ k.background :: (between ++ m :: after) ∧
      m ∈ k.marks ∧ ∀ q ∈ between, q ∈ k.marks := by
  obtain ⟨k, hk, hm⟩ := List.mem_flatMap.mp hm
  rcases Detection.lineSpans_cases r hk with ⟨-, hblock⟩ | ⟨-, ⟨hstrands, hspan⟩ | ⟨-, hnone⟩⟩
  · rw [hblock] at hm
    rcases List.mem_cons.mp hm with rfl | hm
    · cases hmark
    obtain ⟨left, right, hmarks⟩ := List.append_of_mem hm
    obtain ⟨above, below, hlines⟩ := List.append_of_mem hk
    refine ⟨k, hk, above.flatMap (Detection.ofDocument r d).lineSpans, left,
      right ++ below.flatMap (Detection.ofDocument r d).lineSpans, ?_, (List.mem_filter.mp hm).1, ?_⟩
    · rw [hlines, List.flatMap_append, List.flatMap_cons, hblock, hmarks]
      simp
    · intro q hq
      have hq : q ∈ k.marks.filter fun p => !p.extent.isEmpty := by
        rw [hmarks]
        exact List.mem_append_left _ hq
      exact (List.mem_filter.mp hq).1
  · rw [hspan, List.mem_singleton] at hm
    rw [Detection.strands, decide_eq_true_eq] at hstrands
    exact absurd (hm ▸ List.mem_map_of_mem hstrands) horphan
  · simp [hnone] at hm

private theorem clear_around_mark {before between after : List Span} {p m : Span}
    (h : (before ++ p :: (between ++ m :: after)).Pairwise Span.Nests)
    (hline : p.scope = .line) (hmark : m.scope = .mark) (hstart : p.extent.start ≤ m.extent.start) :
    (∀ q ∈ before, q.extent.stop ≤ m.extent.start) ∧
      ∀ q ∈ after, m.extent.stop ≤ q.extent.start := by
  obtain ⟨-, hfrom, hbefore⟩ := List.pairwise_append.mp h
  obtain ⟨-, hmarks, -⟩ := List.pairwise_append.mp (List.pairwise_cons.mp hfrom).2
  constructor
  · intro q hq
    exact Nat.le_trans ((hbefore q hq p List.mem_cons_self).before_of_line hline) hstart
  · intro q hq
    exact ((List.pairwise_cons.mp hmarks).1 q hq).before_of_mark hmark

private theorem orphan_on_line {e : Delimiter} (he : e ∈ (Detection.ofDocument r d).orphans) :
    ∃ k ∈ d.kindedLines, (Detection.ofDocument r d).covers k = false ∧ k.asDelimiter = e ∧
      (Detection.ofDocument r d).lineSpans k = [e.span] := by
  obtain ⟨k, hk, rfl⟩ := Detection.exists_line_of_mem_delimiters (List.mem_append_right _ he)
  have hstrands : (Detection.ofDocument r d).strands k = true := decide_eq_true he
  have hcovers := Detection.not_covers_of_strands r d hstrands
  refine ⟨k, hk, hcovers, rfl, ?_⟩
  rcases Detection.lineSpans_cases r hk with ⟨hblock, -⟩ | ⟨-, ⟨-, hspan⟩ | ⟨hother, -⟩⟩
  · rw [hcovers] at hblock
    cases hblock
  · exact hspan
  · rw [hstrands] at hother
    cases hother

private theorem background_apart_of_orphan {e : Delimiter}
    (he : e ∈ (Detection.ofDocument r d).orphans) {p : Span}
    (hp : p ∈ d.kindedLines.flatMap (Detection.ofDocument r d).lineSpans)
    (hkind : p.kind = .blockBackground) :
    p.extent.stop ≤ e.extent.start ∨ e.extent.stop ≤ p.extent.start := by
  obtain ⟨k, hk, hclear, rfl, -⟩ := orphan_on_line he
  obtain ⟨m, hm, hcovers, rfl⟩ := mem_background_iff.mp ⟨hp, hkind⟩
  have hne : m ≠ k := by
    rintro rfl
    exact Bool.false_ne_true (hclear.symm.trans hcovers)
  rcases Document.apart_of_ne hm hk hne with habove | hbelow
  · exact .inl habove
  · exact .inr (Nat.le_trans (Document.stop_le_nextStart hk) hbelow)

end

/-- The decoration of a whole document nests. -/
theorem ofDetection_nested (r : DetectionRules) (d : Document) :
    Nested d (Detection.ofDocument r d)
      (ofDetection (Detection.ofDocument r d) ⟨0, d.length⟩) := by
  rw [ofDetection_eq_flatMap_lineSpans]
  have hnests := pairwise_flatMap_lineSpans r d
  constructor
  case backgrounds =>
    rw [filter_background, Document.kindedLines, List.filter_map, List.map_map]
    rfl
  case backgrounds_apart =>
    refine List.pairwise_filter.mpr (hnests.imp fun {p q} hpq _ hq => ?_)
    exact hpq.before_of_line ((SpanKind.scope_eq_line_iff_background _).mpr (of_decide_eq_true hq))
  case covered => exact exists_background_iff
  case marks_apart =>
    refine List.pairwise_filter.mpr (hnests.imp fun {p q} hpq hp _ => ?_)
    exact hpq.before_of_mark (of_decide_eq_true hp)
  case mark_text =>
    intro m hm hmark
    obtain ⟨k, hk, hm⟩ := List.mem_flatMap.mp hm
    obtain ⟨hstart, hstop⟩ := mark_within hk hm hmark
    exact ⟨(Detection.span_on_line r hk hm).1, Nat.le_trans hstop (Document.stop_le_length hk),
      Document.feed_not_mem_slice (KindedLine.line_mem hk) hstart hstop⟩
  case mark_under =>
    intro m hm hmark horphan
    obtain ⟨k, hk, before, between, after, hsplit, hmem, hbetween⟩ :=
      exists_split_at_mark hm hmark horphan
    obtain ⟨-, hstart, hstop⟩ := KindedLine.mark_on_line hk hmem
    obtain ⟨hbefore, hafter⟩ := clear_around_mark (hsplit ▸ hnests) rfl hmark hstart
    exact ⟨before, k.background, between, after, hsplit, rfl, hstart,
      Nat.le_trans hstop (Document.stop_le_nextStart hk),
      fun q hq => (KindedLine.mark_on_line hk (hbetween q hq)).1, hbefore, hafter⟩
  case orphan_clear =>
    intro e he
    obtain ⟨k, hk, -, -, hspans⟩ := orphan_on_line he
    exact ⟨List.mem_flatMap.mpr ⟨k, hk, by simp [hspans]⟩,
      fun p hp hkind => background_apart_of_orphan he hp hkind⟩

end Decoration

end MetaBlocks
