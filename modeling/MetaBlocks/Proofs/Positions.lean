import MetaBlocks.Proofs.Checked

/-!
Offsets, rows and columns, bytes and lines. An offset stands behind whole rows and the start of its
own row, and this one division of the text tells its row, its column, the text before it and its
line. The row after a last line feed has a start but is no line.
-/

set_option autoImplicit false
set_option relaxedAutoImplicit false

namespace MetaBlocks

namespace Text

private theorem byteLength_eq_utf8ByteSize (s : List Char) :
    byteLength s = (String.ofList s).utf8ByteSize := by
  induction s with
  | nil => rfl
  | cons c s ih =>
    have hsplit : String.ofList (c :: s) = String.singleton c ++ String.ofList s := by
      rw [String.singleton_eq_ofList, ← String.ofList_append]
      rfl
    rw [byteLength, hsplit, String.utf8ByteSize_append, String.utf8ByteSize_singleton, ih]

private theorem length_splitOn_feed (s : List Char) :
    (s.splitOn '\n').length = s.count '\n' + 1 := by
  induction s using induction_feed with
  | clean u hu =>
    rw [List.splitOn_eq_singleton hu, List.count_eq_zero.mpr hu]
    rfl
  | feed u s hu ih =>
    rw [List.splitOn_append_cons_self_of_not_mem hu, List.length_cons, ih, List.count_append,
      List.count_cons_self, List.count_eq_zero.mpr hu]
    omega

private theorem exists_rows_before_piece {s u : List Char} {i : Nat}
    (h : (s.splitOn '\n')[i]? = some u) :
    ∃ p t, s = p ++ (u ++ t) ∧ EndsRow p ∧ '\n' ∉ u ∧ (rows p).length = i := by
  induction s using induction_feed generalizing i with
  | clean v hv =>
    rw [List.splitOn_eq_singleton hv, List.getElem?_singleton] at h
    split at h
    next hi =>
      obtain rfl := Option.some.inj h
      exact ⟨[], [], by simp, .inl rfl, hv, hi.symm⟩
    next => cases h
  | feed v s hv ih =>
    rw [List.splitOn_append_cons_self_of_not_mem hv] at h
    cases i with
    | zero =>
      obtain rfl := Option.some.inj h
      exact ⟨[], '\n' :: s, rfl, .inl rfl, hv, rfl⟩
    | succ i =>
      obtain ⟨p, t, rfl, hp, hu, hi⟩ := ih h
      refine ⟨v ++ '\n' :: p, t, by simp, hp.cons_feed v, hu, ?_⟩
      rw [rows_append_feed hv, List.length_cons, hi]

private theorem exists_first_row {q s : List Char} (hq : '\n' ∉ q) (hs : s ≠ []) :
    ∃ r, (rows (q ++ s)).head? = some r ∧ q.length < r.length := by
  by_cases hfeed : '\n' ∈ s
  · obtain ⟨u, t, rfl, hu⟩ := List.eq_append_cons_of_mem hfeed
    have hclean : '\n' ∉ q ++ u := by simp [hq, hu]
    refine ⟨q ++ u ++ ['\n'], ?_, ?_⟩
    · rw [← List.append_assoc, rows_append_feed hclean, List.head?_cons]
    · simp only [List.length_append, List.length_singleton]
      omega
  · have hclean : '\n' ∉ q ++ s := by simp [hq, hfeed]
    have hpos := List.length_pos_iff.mpr hs
    refine ⟨q ++ s, ?_, ?_⟩
    · rw [rows_of_clean hclean (List.append_ne_nil_of_right_ne_nil q hs), List.head?_cons]
    · rw [List.length_append]
      omega

end Text

/-- The offset is one of the line's, those of its break among them. -/
def Line.Covers (l : Line) (o : Nat) : Prop := l.start ≤ o ∧ o < l.nextStart

namespace Document

variable {d : Document}

def rowText (d : Document) (row : Nat) : List Char := (d.text.splitOn '\n')[row]?.getD []

private theorem clamp_of_le {o : Nat} (h : o ≤ d.length) : d.clamp o = o := Nat.min_eq_left h

private theorem position_rowStart {row column : Nat} (hrow : row < d.rowCount)
    (hcolumn : column ≤ (d.rowText row).length) :
    d.position (d.rowStart row + column) = (row, column) := by
  have hpiece : row < (d.text.splitOn '\n').length := by
    rw [Text.length_splitOn_feed]
    exact hrow
  rw [rowText, List.getElem?_eq_getElem hpiece, Option.getD_some] at hcolumn
  obtain ⟨p, t, htext, hp, hclean, rfl⟩ :=
    Text.exists_rows_before_piece (List.getElem?_eq_getElem hpiece)
  generalize (d.text.splitOn '\n')[(Text.rows p).length] = u at htext hclean hcolumn
  -- the offset cuts the piece, whose start has no feed either
  have hcut : d.text = p ++ (u.take column ++ (u.drop column ++ t)) := by
    rw [← List.append_assoc (u.take column), List.take_append_drop, htext]
  have htake : (u.take column).length = column := List.length_take_of_le hcolumn
  have hin : p.length + column ≤ d.length := by
    rw [length, htext, List.length_append, List.length_append]
    omega
  rw [rowStart_of_endsRow htext hp]
  rw [position_eq hcut hp (fun hmem => hclean (List.mem_of_mem_take hmem))
    (by rw [clamp_of_le hin, htake]), htake]

private theorem byteOffset_rowStart (d : Document) (row : Nat) :
    d.byteOffset (d.rowStart row) = d.rowByteStart row := by
  have hsplit : d.text = ((Text.rows d.text).take row).flatten ++
      ((Text.rows d.text).drop row).flatten := by
    rw [← List.flatten_append, List.take_append_drop, Text.rows_flatten]
  have htake : d.text.take (d.rowStart row) = ((Text.rows d.text).take row).flatten := by
    rw [rowStart]
    generalize ((Text.rows d.text).take row).flatten = p at hsplit
    rw [hsplit, List.take_left]
  rw [byteOffset, htake, rowByteStart]

private theorem eq_of_covers {l l' : Line} {o : Nat} (hl : l ∈ d.lines) (hl' : l' ∈ d.lines)
    (h : l.Covers o) (h' : l'.Covers o) : l = l' := by
  obtain ⟨i, hi⟩ := List.mem_iff_getElem?.mp hl
  obtain ⟨j, hj⟩ := List.mem_iff_getElem?.mp hl'
  have hat := d.line_at hi
  have hat' := d.line_at hj
  obtain ⟨hstart, hnext⟩ := h
  obtain ⟨hstart', hnext'⟩ := h'
  -- rows start in order, so neither line can come before the other
  have hij : i = j := by
    rcases Nat.lt_trichotomy i j with hlt | heq | hgt
    · have hmono : d.rowStart (i + 1) ≤ d.rowStart j := d.rowStart_mono hlt
      omega
    · exact heq
    · have hmono : d.rowStart (j + 1) ≤ d.rowStart i := d.rowStart_mono hgt
      omega
  rw [hij, hj] at hi
  exact (Option.some.inj hi).symm

private theorem line?_behind {p t : List Char} (h : d.text = p ++ t) (hp : Text.EndsRow p) :
    d.line? ((Text.rows p).length + 1) = (Text.rows t).head?.map fun r =>
      ⟨(Text.rows p).length + 1, p.length, Text.withoutBreak r, p.length + r.length⟩ := by
  rw [line?, lines_getElem?, h, Text.rows_append hp, List.getElem?_append_right (Nat.le_refl _),
    Nat.sub_self, ← List.head?_eq_getElem?]
  cases hrow : (Text.rows t).head? with
  | none => rfl
  | some r =>
    have hat : (Text.rows d.text)[(Text.rows p).length]? = some r := by
      rw [h, Text.rows_append hp, List.getElem?_append_right (Nat.le_refl _), Nat.sub_self,
        ← List.head?_eq_getElem?, hrow]
    rw [Option.map_some, Option.map_some, d.rowStart_succ hat, rowStart_of_endsRow h hp]

section Lines

variable {o : Nat}

private theorem exists_line?_position (h : o < d.length) :
    ∃ l, d.line? ((d.position o).1 + 1) = some l ∧ l.Covers o := by
  obtain ⟨p, q, s, htext, hp, hq, hclamp⟩ := d.exists_row_before o
  rw [clamp_of_le (Nat.le_of_lt h)] at hclamp
  have hs : s ≠ [] := by
    rintro rfl
    rw [length, htext, List.length_append, List.length_append, List.length_nil] at h
    omega
  obtain ⟨r, hr, hlt⟩ := Text.exists_first_row hq hs
  rw [position_eq htext hp hq (by rw [clamp_of_le (Nat.le_of_lt h), hclamp]), line?_behind htext hp,
    hr, Option.map_some]
  refine ⟨_, rfl, ?_, ?_⟩
  · change p.length ≤ o
    omega
  · change o < p.length + r.length
    omega

private theorem line?_position_length (h : ¬Text.EndsRow d.text) :
    d.line? ((d.position d.length).1 + 1) = d.lines.getLast? := by
  obtain ⟨p, q, htext, hp, hq⟩ := Text.exists_endsRow_append d.text
  have hne : q ≠ [] := by
    rintro rfl
    rw [List.append_nil] at htext
    exact h (htext ▸ hp)
  have hlast : d.lines.length = (Text.rows p).length + 1 := by
    rw [length_lines, lineCount, htext, Text.rows_append hp, Text.rows_of_clean hq hne,
      List.length_append, List.length_singleton]
  have hend : d.clamp d.length = p.length + q.length := by
    rw [clamp_of_le (Nat.le_refl _), length, htext, List.length_append]
  rw [position_eq (s := []) (by rw [List.append_nil, ← htext]) hp hq hend, line?,
    List.getLast?_eq_getElem?, hlast, Nat.add_sub_cancel]

private theorem line?_position_eq_none_iff (h : o ≤ d.length) :
    d.line? ((d.position o).1 + 1) = none ↔ o = d.length ∧ Text.EndsRow d.text := by
  obtain ⟨p, q, s, htext, hp, hq, hclamp⟩ := d.exists_row_before o
  have ho : o = p.length + q.length := by rwa [clamp_of_le h] at hclamp
  have hlength : d.length = p.length + (q.length + s.length) := by
    rw [length, htext, List.length_append, List.length_append]
  rw [position_eq htext hp hq hclamp, line?_behind htext hp, Option.map_eq_none_iff,
    List.head?_eq_none_iff]
  constructor
  · intro hrows
    have hnil : q ++ s = [] := by
      by_contra hne
      exact Text.rows_ne_nil hne hrows
    obtain ⟨rfl, rfl⟩ := List.append_eq_nil_iff.mp hnil
    refine ⟨hlength ▸ ho, ?_⟩
    rwa [htext, List.append_nil, List.append_nil]
  · rintro ⟨hend, hends⟩
    have hs : s = [] := List.length_eq_zero_iff.mp (by omega)
    subst hs
    rw [List.append_nil] at htext ⊢
    rw [htext] at hends
    rw [hends.eq_nil_of_append hq, Text.rows_nil]

end Lines

/-- What the other conversions say of an offset whose row and column are given. -/
structure Located (d : Document) (o row column : Nat) : Prop where
  row_eq : row = (d.text.take o).count '\n'
  offset_eq : d.rowStart row + column = o
  sameRow : '\n' ∉ d.slice ⟨d.rowStart row, o⟩
  bytes : d.byteOffset o = (String.ofList (d.text.take o)).utf8ByteSize
  before : d.beforeCursor o = (row + 1, d.slice ⟨d.rowStart row, o⟩)
  inside : o < d.length → ∃ l ∈ d.lines, d.line? (row + 1) = some l ∧ l.Covers o ∧
    ∀ l' ∈ d.lines, l'.Covers o → l' = l
  atEnd : o = d.length → ¬Text.EndsRow d.text → d.lines ≠ [] ∧ d.line? (row + 1) = d.lines.getLast?
  afterLast : d.line? (row + 1) = none ↔ o = d.length ∧ Text.EndsRow d.text

private theorem located_position {o : Nat} (h : o ≤ d.length) :
    Located d o (d.position o).1 (d.position o).2 := by
  obtain ⟨p, q, s, htext, hp, hq, hclamp⟩ := d.exists_row_before o
  have ho : o = p.length + q.length := by rwa [clamp_of_le h] at hclamp
  have hposition := position_eq htext hp hq hclamp
  have hstart : d.rowStart (d.position o).1 = p.length := by
    rw [hposition, rowStart_of_endsRow htext hp]
  have hslice : d.slice ⟨d.rowStart (d.position o).1, o⟩ = q := slice_of_append htext hstart ho
  constructor
  · rw [position, clamp_of_le h]
  · rw [hstart, hposition, ho]
  · rwa [hslice]
  · exact Text.byteLength_eq_utf8ByteSize _
  · rw [hslice, beforeCursor_eq htext hp hq hclamp, hposition]
  · intro hlt
    obtain ⟨l, hline, hcovers⟩ := exists_line?_position hlt
    have hmem : l ∈ d.lines := List.mem_of_getElem? hline
    exact ⟨l, hmem, hline, hcovers, fun l' hl' hcovers' => eq_of_covers hl' hmem hcovers' hcovers⟩
  · intro hend hends
    subst hend
    refine ⟨?_, line?_position_length hends⟩
    intro hnone
    have hrows : Text.rows d.text = [] := by
      rw [← List.length_eq_zero_iff, ← lineCount, ← length_lines, hnone, List.length_nil]
    refine hends (.inl ?_)
    rw [← Text.rows_flatten d.text, hrows, List.flatten_nil]
  · exact line?_position_eq_none_iff h

/-- The conversions between offsets, rows and columns, bytes and lines agree with each other; an
offset beyond the text is taken for its end. -/
theorem conversions_agree (d : Document) :
    (∀ o ≤ d.length, Located d o (d.position o).1 (d.position o).2) ∧
    (∀ row < d.rowCount, ∀ column ≤ (d.rowText row).length,
      d.position (d.rowStart row + column) = (row, column)) ∧
    (∀ row, d.byteOffset (d.rowStart row) = d.rowByteStart row) ∧
    ∀ o, d.length ≤ o → d.position o = d.position d.length ∧
      d.byteOffset o = d.byteOffset d.length ∧ d.beforeCursor o = d.beforeCursor d.length := by
  refine ⟨fun o ho => located_position ho,
    fun row hrow column hcolumn => position_rowStart hrow hcolumn, byteOffset_rowStart d, ?_⟩
  intro o ho
  have hclamp : d.clamp o = d.clamp d.length := by
    rw [clamp, clamp, Nat.min_eq_right ho, Nat.min_self]
  refine ⟨by simp only [position, hclamp], ?_, by simp only [beforeCursor, hclamp]⟩
  rw [byteOffset, byteOffset, List.take_of_length_le ho, length, List.take_length]

theorem conversions_agree_afterFeed :
    let d : Document := .ofText "é\r\nb\n".toList
    Located d 2 0 2 ∧ Located d 5 2 0 ∧ d.line? 3 = none ∧ d.position (d.rowStart 1 + 1) = (1, 1) ∧
      d.byteOffset (d.rowStart 7) = d.rowByteStart 7 ∧ d.byteOffset 9 = d.byteOffset 5 := by
  intro d
  obtain ⟨hlocated, hback, hbytes, hbeyond⟩ := conversions_agree d
  have hinside : Located d 2 0 2 := hlocated 2 (by decide)
  have hafter : Located d 5 2 0 := hlocated 5 (by decide)
  refine ⟨hinside, hafter, ?_, hback 1 (by decide) 1 (by decide), hbytes 7,
    (hbeyond 9 (by decide)).2.1⟩
  exact hafter.afterLast.mpr ⟨by decide, .inr (by decide)⟩

end Document

end MetaBlocks
