import Mathlib.Data.List.Chain
import MetaBlocks.Proofs.Cuts

/-!
The lines of a document tile its text: they are numbered from one, each starts where the one before
it ends, and between the text of a line and the next line stands a line break, which only the last
line can do without. The texts of the lines are the pieces between line feeds, a carriage return
before a feed left out.
-/

set_option autoImplicit false
set_option relaxedAutoImplicit false

namespace MetaBlocks

namespace Text

/-- The lines of a text as pieces between line feeds. A piece that a feed ends loses one carriage
return; the last piece, which none ends, counts only if it has characters. -/
def splitLines (s : List Char) : List (List Char) :=
  (s.splitOn '\n').dropLast.map CompletionContext.dropReturn ++
    ((s.splitOn '\n').getLast?.filter (· ≠ [])).toList

/-- What holds of texts without a feed, and of one line more in front, holds of all texts. -/
theorem induction_feed {P : List Char → Prop} (clean : ∀ u, '\n' ∉ u → P u)
    (feed : ∀ u s, '\n' ∉ u → P s → P (u ++ '\n' :: s)) (s : List Char) : P s := by
  induction hn : s.length using Nat.strongRecOn generalizing s with
  | ind n ih =>
    by_cases hfeed : '\n' ∈ s
    · obtain ⟨u, t, rfl, hu⟩ := List.eq_append_cons_of_mem hfeed
      have hlt : t.length < n := by
        rw [← hn, List.length_append, List.length_cons]
        omega
      exact feed u t hu (ih t.length hlt t rfl)
    · exact clean s hfeed

theorem rows_nil : rows [] = [] := rfl

private theorem map_withoutBreak_rows (s : List Char) :
    (rows s).map withoutBreak = splitLines s := by
  induction s using induction_feed with
  | clean u hu =>
    rw [splitLines, List.splitOn_eq_singleton hu]
    by_cases hnil : u = []
    · subst hnil
      rfl
    · have hkept : (some u).filter (· ≠ []) = some u := Option.filter_some_pos (by simpa using hnil)
      rw [rows_of_clean hu hnil, List.map_singleton, withoutBreak_of_clean hu, List.getLast?_singleton,
        hkept]
      rfl
  | feed u s hu ih =>
    have hpieces := List.splitOn_ne_nil '\n' s
    rw [splitLines] at ih
    rw [splitLines, List.splitOn_append_cons_self_of_not_mem hu, rows_append_feed hu, List.map_cons,
      ih, withoutBreak_append_feed hu, List.dropLast_cons_of_ne_nil hpieces, List.map_cons,
      List.cons_append, List.getLast?_cons, List.getLast?_eq_some_getLast hpieces, Option.getD_some]

theorem EndsRow.cons_feed (u : List Char) {p : List Char} (hp : EndsRow p) :
    EndsRow (u ++ '\n' :: p) := by
  right
  rw [List.getLast?_append, List.getLast?_cons]
  rcases hp with rfl | hlast
  · rfl
  · rw [hlast]
    rfl

theorem EndsRow.eq_nil_of_append {p q : List Char} (h : EndsRow (p ++ q)) (hq : '\n' ∉ q) :
    q = [] := by
  by_contra hne
  rcases h with happend | hfeed
  · exact hne (List.append_eq_nil_iff.mp happend).2
  · rw [List.getLast?_append, List.getLast?_eq_some_getLast hne, Option.some_or] at hfeed
    exact hq (List.mem_of_getLast? (hfeed ▸ List.getLast?_eq_some_getLast hne))

private theorem exists_cut {s r : List Char} {i : Nat} (h : (rows s)[i]? = some r) :
    ∃ c : Cut, s = c.text ∧ (rows c.before).length = i := by
  induction s using induction_feed generalizing i with
  | clean u hu =>
    have hne : u ≠ [] := by
      rintro rfl
      simp [rows_nil] at h
    rw [rows_of_clean hu hne, List.getElem?_singleton] at h
    have hi : i = 0 := by
      by_contra hpos
      simp [hpos] at h
    refine ⟨⟨[], u, [], [], .inl rfl, hu, .inl ⟨rfl, hne, rfl⟩⟩, ?_, hi.symm⟩
    simp [Cut.text]
  | feed u s hu ih =>
    rw [rows_append_feed hu] at h
    cases i with
    | zero =>
      rcases CompletionContext.dropReturn_cases u with ⟨-, hlast⟩ | hreturn
      · refine ⟨⟨[], u, ['\n'], s, .inl rfl, hu, .inr (.inl ⟨rfl, hlast⟩)⟩, ?_, rfl⟩
        simp [Cut.text]
      · generalize CompletionContext.dropReturn u = v at hreturn
        subst hreturn
        have hv : '\n' ∉ v := fun hmem => hu (List.mem_append_left _ hmem)
        refine ⟨⟨[], v, ['\r', '\n'], s, .inl rfl, hv, .inr (.inr rfl)⟩, ?_, rfl⟩
        simp [Cut.text]
    | succ i =>
      obtain ⟨c, htext, hindex⟩ := ih h
      refine ⟨⟨u ++ '\n' :: c.before, c.line, c.lineBreak, c.after, c.endsRow.cons_feed u, c.clean,
        c.broken⟩, ?_, ?_⟩
      · rw [htext]
        simp [Cut.text]
      · rw [rows_append_feed hu, List.length_cons, hindex]

end Text

namespace Document

variable (d : Document)

def slice (e : Extent) : List Char := (d.text.take e.stop).drop e.start

variable {d}

theorem slice_of_append {p m q : List Char} (h : d.text = p ++ (m ++ q)) {e : Extent}
    (hstart : e.start = p.length) (hstop : e.stop = p.length + m.length) : d.slice e = m := by
  rw [slice, h, hstop, hstart, List.take_length_add_append, List.take_left, List.drop_left]

theorem slice_eq_nil {e : Extent} (h : e.stop ≤ e.start) : d.slice e = [] :=
  List.drop_eq_nil_of_le (Nat.le_trans (List.length_take_le _ _) h)

theorem slice_append_slice {i j k : Nat} (hij : i ≤ j) (hjk : j ≤ k) :
    d.slice ⟨i, j⟩ ++ d.slice ⟨j, k⟩ = d.slice ⟨i, k⟩ := by
  simp only [slice, List.drop_take]
  rw [show k - i = (j - i) + (k - j) by omega, List.take_add, List.drop_drop,
    show i + (j - i) = j by omega]

theorem mem_slice_iff {e : Extent} {c : Char} :
    c ∈ d.slice e ↔ ∃ o, e.start ≤ o ∧ o < e.stop ∧ d.text[o]? = some c := by
  simp only [slice, List.mem_iff_getElem?, List.getElem?_drop, List.getElem?_take]
  constructor
  · rintro ⟨i, hi⟩
    split at hi
    next hlt => exact ⟨e.start + i, by omega, hlt, hi⟩
    next => cases hi
  · rintro ⟨o, hstart, hstop, ho⟩
    refine ⟨o - e.start, ?_⟩
    rw [Nat.add_sub_cancel' hstart, if_pos hstop, ho]

theorem exists_cut_of_mem_lines {l : Line} (h : l ∈ d.lines) :
    ∃ c : Text.Cut, d.text = c.text ∧ l = c.asLine := by
  obtain ⟨i, hi⟩ := List.mem_iff_getElem?.mp h
  have hrow := hi
  rw [lines_getElem?] at hrow
  obtain ⟨r, hr, -⟩ := Option.map_eq_some_iff.mp hrow
  obtain ⟨c, htext, hindex⟩ := Text.exists_cut hr
  have hline : d.lines[(Text.rows c.before).length]? = some c.asLine := line?_of_cut htext
  rw [hindex, hi, Option.some.injEq] at hline
  exact ⟨c, htext, hline⟩

variable (d)

theorem exists_row_before (cursor : Nat) :
    ∃ p q s, d.text = p ++ (q ++ s) ∧ Text.EndsRow p ∧ '\n' ∉ q ∧
      d.clamp cursor = p.length + q.length := by
  obtain ⟨p, q, hpq, hp, hq⟩ := Text.exists_endsRow_append (d.text.take (d.clamp cursor))
  refine ⟨p, q, d.text.drop (d.clamp cursor), ?_, hp, hq, ?_⟩
  · rw [← List.append_assoc, ← hpq, List.take_append_drop]
  · have hlen := congrArg List.length hpq
    have hle : d.clamp cursor ≤ d.text.length := Nat.min_le_right cursor _
    rwa [List.length_take_of_le hle, List.length_append] at hlen

theorem length_lines : d.lines.length = d.lineCount := Line.length_ofRows 1 0 _

theorem endsWithEmptyRow_iff : d.endsWithEmptyRow = true ↔ Text.EndsRow d.text := by
  unfold endsWithEmptyRow Text.EndsRow
  cases hlast : d.text.getLast? with
  | none => simp [List.getLast?_eq_none_iff.mp hlast]
  | some c =>
    have hne : d.text ≠ [] := by
      intro hnil
      simp [hnil] at hlast
    simp [hne]

theorem lineCount_eq :
    d.lineCount = if d.endsWithEmptyRow then d.rowCount - 1 else d.rowCount := by
  rw [lineCount, rowCount]
  by_cases hends : Text.EndsRow d.text
  · rw [if_pos (d.endsWithEmptyRow_iff.mpr hends), Text.length_rows hends, Nat.add_sub_cancel]
  · rw [if_neg fun h => hends (d.endsWithEmptyRow_iff.mp h)]
    obtain ⟨p, q, htext, hp, hq⟩ := Text.exists_endsRow_append d.text
    have hne : q ≠ [] := by
      rintro rfl
      rw [List.append_nil] at htext
      exact hends (htext ▸ hp)
    rw [htext, Text.rows_append hp, List.length_append, Text.length_rows hp,
      Text.rows_of_clean hq hne, List.length_singleton, List.count_append, List.count_eq_zero.mpr hq,
      Nat.add_zero]

theorem filterMap_line? : (List.range' 1 d.lineCount).filterMap d.line? = d.lines := by
  have hmap : (List.range' 1 d.lineCount).map d.line? = d.lines.map some := by
    refine List.ext_getElem (by simp [length_lines]) fun i _ hi => ?_
    rw [List.length_map] at hi
    rw [List.getElem_map, List.getElem_map, List.getElem_range', Nat.one_mul, Nat.add_comm 1 i, line?,
      List.getElem?_eq_getElem hi]
  have hread := congrArg (List.filterMap id) hmap
  rw [List.filterMap_map, List.filterMap_map] at hread
  simpa using hread

end Document

/-- Lines that follow each other without a gap from the start of a document to its end. -/
structure Line.Tile (d : Document) (ls : List Line) : Prop where
  numbers : ls.map (·.number) = List.range' 1 ls.length
  first : ∀ l ∈ ls.head?, l.start = 0
  next : ls.IsChain fun a b => a.nextStart = b.start
  last : ∀ l ∈ ls.getLast?, l.nextStart = d.length
  ordered : ∀ l ∈ ls, l.start ≤ l.stop ∧ l.stop ≤ l.nextStart
  text : ∀ l ∈ ls, d.slice ⟨l.start, l.stop⟩ = l.text
  lineBreak : ∀ l ∈ ls, d.slice ⟨l.stop, l.nextStart⟩ = ['\n'] ∨
    d.slice ⟨l.stop, l.nextStart⟩ = ['\r', '\n'] ∨
    d.slice ⟨l.stop, l.nextStart⟩ = [] ∧ ls.getLast? = some l

namespace Document

variable (d : Document)

private theorem map_number_lines : d.lines.map (·.number) = List.range' 1 d.lines.length := by
  refine List.ext_getElem (by simp) fun i hi _ => ?_
  rw [List.length_map] at hi
  have hat := d.line_at (List.getElem?_eq_getElem hi)
  rw [List.getElem_map, List.getElem_range', hat.1]
  omega

private theorem isChain_lines : d.lines.IsChain fun a b => a.nextStart = b.start := by
  rw [List.isChain_iff_getElem]
  intro i hi
  have hhere := d.line_at (List.getElem?_eq_getElem (by omega : i < d.lines.length))
  have hnext := d.line_at (List.getElem?_eq_getElem hi)
  rw [hhere.2.2.1, hnext.2.1]

private theorem nextStart_of_getLast? {l : Line} (h : d.lines.getLast? = some l) :
    l.nextStart = d.length := by
  rw [List.getLast?_eq_getElem?] at h
  have hat := d.line_at h
  have hlt := (List.getElem?_eq_some_iff.mp h).1
  have hall : (Text.rows d.text).length ≤ d.lines.length - 1 + 1 := by
    rw [length_lines, lineCount] at hlt ⊢
    omega
  rw [hat.2.2.1, rowStart, List.take_of_length_le hall, Text.rows_flatten, length]

variable {d} {l : Line}

theorem slice_text (h : l ∈ d.lines) : d.slice ⟨l.start, l.stop⟩ = l.text := by
  obtain ⟨c, htext, rfl⟩ := exists_cut_of_mem_lines h
  rw [Text.Cut.text, List.append_assoc] at htext
  exact slice_of_append htext rfl rfl

theorem slice_lineBreak (h : l ∈ d.lines) :
    d.slice ⟨l.stop, l.nextStart⟩ = ['\n'] ∨ d.slice ⟨l.stop, l.nextStart⟩ = ['\r', '\n'] ∨
      d.slice ⟨l.stop, l.nextStart⟩ = [] ∧ d.lines.getLast? = some l := by
  obtain ⟨c, htext, rfl⟩ := exists_cut_of_mem_lines h
  have hbreak : d.slice ⟨c.asLine.stop, c.asLine.nextStart⟩ = c.lineBreak := by
    have hsplit : d.text = (c.before ++ c.line) ++ (c.lineBreak ++ c.after) := by
      rw [htext, Text.Cut.text]
      simp
    refine slice_of_append hsplit ?_ ?_
    · simp [Text.Cut.asLine, Line.stop]
    · simp only [Text.Cut.asLine, List.length_append]
      omega
  rw [hbreak]
  rcases c.broken with ⟨hnone, -, hafter⟩ | ⟨hfeed, -⟩ | hpair
  · refine .inr (.inr ⟨hnone, ?_⟩)
    rw [lines_of_cut htext, hafter, Text.rows_nil, Line.ofRows, List.getLast?_concat]
  · exact .inl hfeed
  · exact .inr (.inl hpair)

/-- The lines of a document tile its text, and their texts are the pieces between its line feeds. -/
theorem lines_tile (d : Document) :
    Line.Tile d d.lines ∧ d.lines.length = d.lineCount ∧
      d.lineCount = (if d.endsWithEmptyRow then d.rowCount - 1 else d.rowCount) ∧
      d.lines = (List.range' 1 d.lineCount).filterMap d.line? ∧
      d.lines.map (·.text) = Text.splitLines d.text ∧ (d.lines = [] ↔ d.text = []) := by
  refine ⟨?_, d.length_lines, d.lineCount_eq, d.filterMap_line?.symm, ?_, ?_⟩
  · constructor
    · exact d.map_number_lines
    · intro l hl
      rw [Option.mem_def, List.head?_eq_getElem?] at hl
      exact (d.line_at hl).2.1
    · exact d.isChain_lines
    · intro l hl
      exact d.nextStart_of_getLast? hl
    · intro l hl
      obtain ⟨i, hi⟩ := List.mem_iff_getElem?.mp hl
      exact ⟨Nat.le_add_right _ _, (d.line_at hi).2.2.2.2⟩
    · intro l hl
      exact slice_text hl
    · intro l hl
      exact slice_lineBreak hl
  · rw [← Text.map_withoutBreak_rows]
    refine List.ext_getElem? fun i => ?_
    rw [List.getElem?_map, lines_getElem?, List.getElem?_map, Option.map_map]
    rfl
  · rw [← List.length_eq_zero_iff, d.length_lines, lineCount, List.length_eq_zero_iff]
    constructor
    · intro hrows
      by_contra hne
      exact Text.rows_ne_nil hne hrows
    · intro hnil
      rw [hnil, Text.rows_nil]

example : (ofText "a\rb\r\n\n\u2028c\r".toList).lines =
    [⟨1, 0, "a\rb".toList, 5⟩, ⟨2, 5, [], 6⟩, ⟨3, 6, "\u2028c\r".toList, 9⟩] := by decide

end Document

end MetaBlocks
