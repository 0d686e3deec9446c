import MetaBlocks.Section

/-!
The lines of a document tile its text. Every line starts where the one before it ends, no line is
empty once its break is counted, and the line at an index has the number and the offsets that the
row starts give it.
-/

set_option autoImplicit false
set_option relaxedAutoImplicit false

namespace MetaBlocks

namespace Text

theorem rows_flatten (s : List Char) : (rows s).flatten = s := by
  induction s with
  | nil => rfl
  | cons c s ih =>
    by_cases hc : c = '\n'
    · simp [rows, hc, ih]
    · cases hr : rows s with
      | nil =>
        rw [hr] at ih
        simp [rows, hc, ← ih]
      | cons r rs =>
        rw [hr] at ih
        simp only [List.flatten_cons] at ih
        simp [rows, hc, hr, ih]

private theorem ne_nil_of_mem_rows {s r : List Char} (h : r ∈ rows s) : r ≠ [] := by
  induction s generalizing r with
  | nil => simp [rows] at h
  | cons c s ih =>
    by_cases hc : c = '\n'
    · simp only [rows, hc, ↓reduceIte, List.mem_cons] at h
      rcases h with rfl | h
      · simp
      · exact ih h
    · cases hr : rows s with
      | nil =>
        have he : r = [c] := by simpa [rows, hc, hr] using h
        simp [he]
      | cons q qs =>
        simp only [rows, hc, ↓reduceIte, hr, List.mem_cons] at h
        rcases h with rfl | h
        · simp
        · exact ih (by rw [hr]; exact List.mem_cons_of_mem q h)

theorem exists_break (r : List Char) :
    ∃ b, r = withoutBreak r ++ b ∧ (b = [] ∨ b = ['\n'] ∨ b = ['\r', '\n']) := by
  fun_induction withoutBreak r with
  | case1 => exact ⟨[], rfl, .inl rfl⟩
  | case2 => exact ⟨['\n'], rfl, .inr (.inl rfl)⟩
  | case3 => exact ⟨['\r', '\n'], rfl, .inr (.inr rfl)⟩
  | case4 c s _ _ ih =>
    obtain ⟨b, hs, hb⟩ := ih
    refine ⟨b, ?_, hb⟩
    rw [List.cons_append, ← hs]

private theorem withoutBreak_length_le (r : List Char) : (withoutBreak r).length ≤ r.length := by
  obtain ⟨b, hr, _⟩ := exists_break r
  have h := congrArg List.length hr
  simp only [List.length_append] at h
  omega

end Text

namespace Line

theorem ofRows_getElem? (number start : Nat) (rs : List (List Char)) (i : Nat) :
    (ofRows number start rs)[i]? = rs[i]?.map fun r =>
      ⟨number + i, start + (rs.take i).flatten.length, Text.withoutBreak r,
        start + (rs.take (i + 1)).flatten.length⟩ := by
  induction rs generalizing number start i with
  | nil => simp [ofRows]
  | cons r rs ih =>
    cases i with
    | zero => simp [ofRows]
    | succ i =>
      simp only [ofRows, List.getElem?_cons_succ, ih, List.take_succ_cons, List.flatten_cons,
        List.length_append]
      congr 1
      funext q
      simp only [Line.mk.injEq, true_and]
      omega

end Line

namespace Document

variable (d : Document)

theorem lines_getElem? (i : Nat) :
    d.lines[i]? = (Text.rows d.text)[i]?.map fun r =>
      ⟨i + 1, d.rowStart i, Text.withoutBreak r, d.rowStart (i + 1)⟩ := by
  rw [lines, Line.ofRows_getElem?]
  simp only [rowStart, Nat.zero_add, Nat.add_comm 1 i]

theorem rowStart_succ {i : Nat} {r : List Char} (h : (Text.rows d.text)[i]? = some r) :
    d.rowStart (i + 1) = d.rowStart i + r.length := by
  simp [rowStart, List.take_add_one, h]

theorem rowStart_le_succ (i : Nat) : d.rowStart i ≤ d.rowStart (i + 1) := by
  simp [rowStart, List.take_add_one]

theorem rowStart_mono {i j : Nat} (h : i ≤ j) : d.rowStart i ≤ d.rowStart j := by
  induction h with
  | refl => exact Nat.le_refl _
  | step _ ih => exact Nat.le_trans ih (d.rowStart_le_succ _)

theorem rowStart_le_length (i : Nat) : d.rowStart i ≤ d.length := by
  have h := congrArg List.length (Text.rows_flatten d.text)
  rw [← List.take_append_drop i (Text.rows d.text), List.flatten_append, List.length_append] at h
  simp only [rowStart, length]
  omega

theorem line_at {i : Nat} {l : Line} (h : d.lines[i]? = some l) :
    l.number = i + 1 ∧ l.start = d.rowStart i ∧ l.nextStart = d.rowStart (i + 1) ∧
      l.start < l.nextStart ∧ l.stop ≤ l.nextStart := by
  rw [lines_getElem?] at h
  obtain ⟨r, hr, rfl⟩ := Option.map_eq_some_iff.mp h
  have hs := d.rowStart_succ hr
  have hn : 0 < r.length :=
    List.length_pos_iff.mpr (Text.ne_nil_of_mem_rows (List.mem_of_getElem? hr))
  have ht := Text.withoutBreak_length_le r
  refine ⟨rfl, rfl, rfl, ?_, ?_⟩
  · change d.rowStart i < d.rowStart (i + 1)
    omega
  · change d.rowStart i + (Text.withoutBreak r).length ≤ d.rowStart (i + 1)
    omega

theorem kindedLine_at {i : Nat} {k : KindedLine} (h : d.kindedLines[i]? = some k) :
    d.lines[i]? = some k.line ∧ k.kind = .ofLine k.line := by
  rw [kindedLines, List.getElem?_map] at h
  obtain ⟨l, hl, rfl⟩ := Option.map_eq_some_iff.mp h
  exact ⟨hl, rfl⟩

theorem number_of_kindedLine_at {i : Nat} {k : KindedLine} (h : d.kindedLines[i]? = some k) :
    k.line.number = i + 1 := (d.line_at (d.kindedLine_at h).1).1

theorem line?_eq_of_kindedLine_at {i : Nat} {k : KindedLine} (h : d.kindedLines[i]? = some k) :
    d.line? k.line.number = some k.line := by
  rw [d.number_of_kindedLine_at h]
  exact (d.kindedLine_at h).1

end Document

end MetaBlocks
