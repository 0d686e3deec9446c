import Mathlib.Data.List.Chain
import MetaBlocks.Proofs.Pairing

/-!
The shape of detected blocks. The lines of a block follow each other in the document, so its parts
are told by the numbers of its two delimiter lines; blocks stand in order and do not overlap.
-/

set_option autoImplicit false
set_option relaxedAutoImplicit false

namespace MetaBlocks

namespace Document

variable (d : Document)

def rowExtent (row : Nat) : Extent := ⟨d.rowStart row, d.rowStart (row + 1)⟩

variable {d} {pre mid post : List KindedLine}

theorem kindedLine_at_run (h : d.kindedLines = pre ++ (mid ++ post)) {i : Nat} {k : KindedLine}
    (hk : mid[i]? = some k) : d.kindedLines[pre.length + i]? = some k := by
  have hi := (List.getElem?_eq_some_iff.mp hk).1
  rw [h, List.getElem?_append_right (by omega), Nat.add_sub_cancel_left,
    List.getElem?_append_left hi, hk]

private theorem map_fullExtent_run (h : d.kindedLines = pre ++ (mid ++ post)) :
    mid.map KindedLine.fullExtent = (List.range' pre.length mid.length).map d.rowExtent := by
  refine List.ext_getElem (by simp) fun i hi _ => ?_
  simp only [List.length_map] at hi
  have hat := d.line_at (d.kindedLine_at (kindedLine_at_run h (List.getElem?_eq_getElem hi))).1
  simp only [List.getElem_map, List.getElem_range', Nat.one_mul]
  rw [KindedLine.fullExtent, hat.2.1, hat.2.2.1, rowExtent]

private theorem mem_rows_iff (low count o : Nat) :
    (d.rowStart low ≤ o ∧ o < d.rowStart (low + count)) ↔
      ∃ k ∈ List.range' low count, d.rowStart k ≤ o ∧ o < d.rowStart (k + 1) := by
  induction count with
  | zero =>
    simp only [Nat.add_zero, List.range'_zero, List.not_mem_nil, false_and, exists_false, iff_false]
    omega
  | succ count ih =>
    have hstep := d.rowStart_le_succ (low + count)
    have hlow : d.rowStart low ≤ d.rowStart (low + count) := d.rowStart_mono (Nat.le_add_right _ _)
    simp only [List.range'_1_concat, List.mem_append, List.mem_singleton]
    constructor
    · rintro ⟨hle, hlt⟩
      by_cases ho : o < d.rowStart (low + count)
      · obtain ⟨k, hk, hbounds⟩ := ih.mp ⟨hle, ho⟩
        exact ⟨k, .inl hk, hbounds⟩
      · exact ⟨low + count, .inr rfl, by omega, hlt⟩
    · rintro ⟨k, hk | rfl, hge, hlt⟩
      · have hin := ih.mpr ⟨k, hk, hge, hlt⟩
        exact ⟨hin.1, by rw [← Nat.add_assoc]; omega⟩
      · exact ⟨by omega, hlt⟩

end Document

namespace Block

/-- What the rest of the program relies on in a block of a document. -/
structure WellFormed (d : Document) (b : Block) : Prop where
  /-- There is a line between the delimiter lines. -/
  apart : b.opening.line + 1 < b.closing.line
  bodyLines : b.bodyLines = ⟨b.opening.line + 1, b.closing.line⟩
  noDelimiter : ∀ l ∈ d.linesBetween b.opening.line b.closing.line, l.isDelimiter = false
  declarations : b.declarations =
    (d.linesBetween b.opening.line b.closing.line).filterMap fun l => l.kind.declaration?
  entries : b.entries =
    (d.linesBetween b.opening.line b.closing.line).filterMap fun l => l.kind.entry?
  content : b.declarations ≠ [] ∨ b.entries ≠ []
  lineCount : b.lineExtents.length = b.closing.line - b.opening.line + 1
  nonempty : ∀ e ∈ b.lineExtents, e.start < e.stop
  contiguous : b.lineExtents.IsChain fun e f => e.stop = f.start
  firstLine : b.lineExtents.head?.map Extent.start = some b.opening.extent.start
  /-- The body runs from the start of its first line to the end of its last line's text. -/
  body : ∃ first last, d.line? (b.opening.line + 1) = some first ∧
    d.line? (b.closing.line - 1) = some last ∧ b.bodyExtent = ⟨first.start, last.stop⟩
  /-- A block covers what its lines cover. -/
  union : ∀ o, (b.extent.start ≤ o ∧ o < b.extent.stop) ↔
    ∃ e ∈ b.lineExtents, e.start ≤ o ∧ o < e.stop

end Block

namespace Section

variable {d : Document} {i : Nat} {s t : Section}

theorem exists_run (hs : d.sections[i]? = some s) (ht : d.sections[i + 1]? = some t) :
    ∃ pre post, d.kindedLines = pre ++ ((s.head :: (s.body ++ [t.head])) ++ post) := by
  obtain ⟨pre, post, hls, -, -, hpost⟩ := Document.exists_split hs
  rw [d.delimiterLines_getElem?, ht, Option.map_some] at hpost
  obtain ⟨rest, rfl⟩ := List.head?_eq_some_iff.mp hpost
  exact ⟨pre, rest, by simpa using hls⟩

theorem rows_of_run (hs : d.sections[i]? = some s) (ht : d.sections[i + 1]? = some t) :
    0 < s.head.line.number ∧ t.head.line.number = s.head.line.number + s.body.length + 1 ∧
      (s.head :: (s.body ++ [t.head])).map KindedLine.fullExtent =
        (List.range' (s.head.line.number - 1) (s.body.length + 2)).map d.rowExtent := by
  obtain ⟨pre, post, hrun⟩ := exists_run hs ht
  have hhead := d.number_of_kindedLine_at (Document.kindedLine_at_run hrun (i := 0) rfl)
  have hlast := d.number_of_kindedLine_at
    (Document.kindedLine_at_run hrun (i := s.body.length + 1) (k := t.head) (by simp))
  refine ⟨by omega, by omega, ?_⟩
  rw [Document.map_fullExtent_run hrun, hhead]
  simp

private theorem line?_of_body (hs : d.sections[i]? = some s) (ht : d.sections[i + 1]? = some t)
    {j : Nat} {k : KindedLine} (hk : s.body[j]? = some k) :
    d.line? (s.head.line.number + j + 1) = some k.line := by
  obtain ⟨pre, post, hrun⟩ := exists_run hs ht
  have hhead := d.number_of_kindedLine_at (Document.kindedLine_at_run hrun (i := 0) rfl)
  have hat := Document.kindedLine_at_run hrun (i := j + 1) (k := k) (by
    rw [List.getElem?_cons_succ, List.getElem?_append_left (List.getElem?_eq_some_iff.mp hk).1, hk])
  rw [← d.line?_eq_of_kindedLine_at hat, d.number_of_kindedLine_at hat, hhead]
  congr 1
  omega

end Section

namespace Block

variable {r : DetectionRules} {d : Document} {b : Block}

theorem exists_sections (h : b ∈ (Detection.ofDocument r d).blocks) :
    ∃ i s t, d.sections[i]? = some s ∧ d.sections[i + 1]? = some t ∧ s.qualifies = true ∧
      b = .ofSection s t.head :=
  Section.exists_of_block_mem (Detection.mem_blocks_iff.mp h)

theorem exists_line_of_mem_entries (h : b ∈ (Detection.ofDocument r d).blocks) {e : Entry}
    (he : e ∈ b.entries) : ∃ l ∈ d.lines, LineKind.ofLine l = .entry e := by
  obtain ⟨i, s, t, hs, -, -, rfl⟩ := exists_sections h
  obtain ⟨k, hk, hkind⟩ := List.mem_filterMap.mp he
  obtain ⟨hline, -⟩ := (Document.mem_body_iff hs).mp hk
  obtain ⟨l, hl, rfl⟩ := List.mem_map.mp hline
  refine ⟨l, hl, ?_⟩
  cases hof : LineKind.ofLine l <;> simp_all [KindedLine.ofLine, LineKind.entry?]

theorem lineExtents_eq (h : b ∈ (Detection.ofDocument r d).blocks) :
    b.lineExtents = (List.range' (b.opening.line - 1)
      (b.closing.line - b.opening.line + 1)).map d.rowExtent := by
  obtain ⟨i, s, t, hs, ht, -, rfl⟩ := exists_sections h
  obtain ⟨-, hnumber, hrows⟩ := Section.rows_of_run hs ht
  simp only [ofSection, KindedLine.asDelimiter]
  rw [hrows, hnumber]
  congr 2
  omega

theorem opening_pos (h : b ∈ (Detection.ofDocument r d).blocks) : 0 < b.opening.line := by
  obtain ⟨i, s, t, hs, ht, -, rfl⟩ := exists_sections h
  exact (Section.rows_of_run hs ht).1

private theorem opening_start_eq (h : b ∈ (Detection.ofDocument r d).blocks) :
    b.opening.extent.start = d.rowStart (b.opening.line - 1) := by
  obtain ⟨i, s, t, hs, ht, -, rfl⟩ := exists_sections h
  obtain ⟨-, -, hrows⟩ := Section.rows_of_run hs ht
  have hfirst := congrArg List.head? hrows
  simp only [List.map_cons, List.head?_cons, List.range'_succ, Option.some.injEq] at hfirst
  exact congrArg Extent.start hfirst

theorem extent_eq (h : b ∈ (Detection.ofDocument r d).blocks) :
    b.extent = ⟨d.rowStart (b.opening.line - 1), d.rowStart b.closing.line⟩ := by
  have hlines := lineExtents_eq h
  have hlt := (Detection.blocks_sorted r d).1 b h
  have hpos := opening_pos h
  rw [extent, opening_start_eq h, hlines, List.range'_1_concat, List.map_append, List.map_singleton,
    List.getLast?_concat, Option.map_some, Option.getD_some, Document.rowExtent,
    show b.opening.line - 1 + (b.closing.line - b.opening.line) + 1 = b.closing.line by omega]

theorem nonempty_of_mem_lineExtents (h : b ∈ (Detection.ofDocument r d).blocks) {e : Extent}
    (he : e ∈ b.lineExtents) : e.start < e.stop := by
  obtain ⟨i, s, t, hs, ht, -, rfl⟩ := exists_sections h
  obtain ⟨pre, post, hrun⟩ := Section.exists_run hs ht
  obtain ⟨k, hk, rfl⟩ := List.mem_map.mp he
  obtain ⟨j, hj⟩ := List.mem_iff_getElem?.mp hk
  exact (d.line_at (d.kindedLine_at (Document.kindedLine_at_run hrun hj)).1).2.2.2.1

private theorem exists_body (h : b ∈ (Detection.ofDocument r d).blocks) :
    ∃ first last, d.line? (b.opening.line + 1) = some first ∧
      d.line? (b.closing.line - 1) = some last ∧ b.bodyExtent = ⟨first.start, last.stop⟩ := by
  obtain ⟨i, s, t, hs, ht, content, rfl⟩ := exists_sections h
  obtain ⟨-, hnumber, -⟩ := Section.rows_of_run hs ht
  have hne : s.body ≠ [] := by
    intro he
    simp [Section.qualifies, he] at content
  have hlen := List.length_pos_iff.mpr hne
  refine ⟨(s.body.head hne).line, (s.body.getLast hne).line, ?_, ?_, ?_⟩
  · refine Section.line?_of_body hs ht (j := 0) ?_
    rw [← List.head?_eq_getElem?, List.head?_eq_some_head hne]
  · simp only [ofSection, KindedLine.asDelimiter]
    rw [hnumber, Nat.add_sub_cancel,
      show s.head.line.number + s.body.length = s.head.line.number + (s.body.length - 1) + 1 by omega]
    refine Section.line?_of_body hs ht ?_
    rw [← List.getLast?_eq_getElem?, List.getLast?_eq_some_getLast hne]
  · simp only [ofSection, List.head?_eq_some_head hne, List.getLast?_eq_some_getLast hne,
      Option.map_some, Option.getD_some]

private theorem content_of_qualifies {s : Section} (h : s.qualifies = true) (c : KindedLine) :
    (ofSection s c).declarations ≠ [] ∨ (ofSection s c).entries ≠ [] := by
  obtain ⟨k, hk, hq⟩ := List.any_eq_true.mp h
  cases hkind : k.kind with
  | declaration x =>
    exact .inl (List.ne_nil_of_mem (List.mem_filterMap.mpr ⟨k, hk, by rw [hkind]; rfl⟩))
  | entry x =>
    exact .inr (List.ne_nil_of_mem (List.mem_filterMap.mpr ⟨k, hk, by rw [hkind]; rfl⟩))
  | blank => simp [KindedLine.qualifies, LineKind.qualifies, hkind] at hq
  | delimiter => simp [KindedLine.qualifies, LineKind.qualifies, hkind] at hq
  | text => simp [KindedLine.qualifies, LineKind.qualifies, hkind] at hq

private theorem isChain_lineExtents (h : b ∈ (Detection.ofDocument r d).blocks) :
    b.lineExtents.IsChain fun e f => e.stop = f.start := by
  rw [lineExtents_eq h, List.isChain_iff_getElem]
  intro i hi
  simp only [List.getElem_map, List.getElem_range', Document.rowExtent]
  congr 1

theorem mem_extent_iff (h : b ∈ (Detection.ofDocument r d).blocks) (o : Nat) :
    (b.extent.start ≤ o ∧ o < b.extent.stop) ↔ ∃ e ∈ b.lineExtents, e.start ≤ o ∧ o < e.stop := by
  have hlt := (Detection.blocks_sorted r d).1 b h
  have hpos := opening_pos h
  have hrows := Document.mem_rows_iff (d := d) (b.opening.line - 1)
    (b.closing.line - b.opening.line + 1) o
  rw [show b.opening.line - 1 + (b.closing.line - b.opening.line + 1) = b.closing.line by omega]
    at hrows
  rw [extent_eq h, lineExtents_eq h, hrows]
  simp only [List.mem_map, exists_exists_and_eq_and, Document.rowExtent]

theorem wellFormed_of_mem (h : b ∈ (Detection.ofDocument r d).blocks) : b.WellFormed d := by
  have hlines := lineExtents_eq h
  have hstart := opening_start_eq h
  obtain ⟨i, s, t, hs, ht, content, he⟩ := exists_sections h
  obtain ⟨hpos, hnumber, -⟩ := Section.rows_of_run hs ht
  have hbetween := Document.body_eq_linesBetween hs ht
  obtain ⟨-, -, -, -, hno, -⟩ := Document.exists_split hs
  have hopening : b.opening.line = s.head.line.number := by rw [he]; rfl
  have hclosing : b.closing.line = t.head.line.number := by rw [he]; rfl
  have hlen : 0 < s.body.length := by
    obtain ⟨k, hk, -⟩ := List.any_eq_true.mp content
    exact List.length_pos_of_mem hk
  exact
    { apart := by omega
      bodyLines := by rw [he]; rfl
      noDelimiter := by rw [hopening, hclosing, ← hbetween]; exact hno
      declarations := by rw [hopening, hclosing, ← hbetween, he]; rfl
      entries := by rw [hopening, hclosing, ← hbetween, he]; rfl
      content := by rw [he]; exact content_of_qualifies content t.head
      lineCount := by rw [hlines, List.length_map, List.length_range']
      nonempty := fun e hmem => nonempty_of_mem_lineExtents h hmem
      contiguous := isChain_lineExtents h
      firstLine := by rw [hlines, hstart, List.range'_succ]; rfl
      body := exists_body h
      union := mem_extent_iff h }

end Block

/-- Detected blocks are well formed, in order and disjoint. -/
theorem Detection.blocks_wellFormed (r : DetectionRules) (d : Document) :
    (∀ b ∈ (ofDocument r d).blocks, b.WellFormed d) ∧
      (ofDocument r d).blocks.Pairwise fun a b =>
        a.closing.line < b.opening.line ∧ a.extent.stop ≤ b.extent.start := by
  refine ⟨fun b hb => Block.wellFormed_of_mem hb, ?_⟩
  refine (blocks_sorted r d).2.imp_of_mem fun {a b} ha hb hlt => ⟨hlt, ?_⟩
  rw [Block.extent_eq ha, Block.extent_eq hb]
  exact d.rowStart_mono (by omega)

end MetaBlocks
