import MetaBlocks.Completion
import MetaBlocks.Proofs.Lines

/-!
A text cut at one of its lines. Whole rows in front do not change how the rest is divided into rows,
so the line at a cut, its number and its offsets are told by what stands before it. Every cursor
stands in such a line, or after the last line break.
-/

set_option autoImplicit false
set_option relaxedAutoImplicit false

namespace MetaBlocks

namespace Text

/-- The text is made of whole rows: it is empty or ends with a line feed. -/
def EndsRow (p : List Char) : Prop := p = [] ∨ p.getLast? = some '\n'

private theorem EndsRow.of_cons {c : Char} {p : List Char} (h : EndsRow (c :: p)) (hp : p ≠ []) :
    EndsRow p := by
  rcases h with h | h
  · cases h
  · rw [List.getLast?_cons] at h
    obtain ⟨e, he⟩ := Option.isSome_iff_exists.mp (List.getLast?_isSome.mpr hp)
    rw [he, Option.getD_some] at h
    exact .inr (he.trans h)

theorem EndsRow.getLast?_ne_return {p : List Char} (h : EndsRow p) : p.getLast? ≠ some '\r' := by
  rcases h with rfl | h
  · simp
  · rw [h]
    decide

theorem rows_ne_nil {s : List Char} (h : s ≠ []) : rows s ≠ [] := by
  intro hr
  have hs := rows_flatten s
  rw [hr, List.flatten_nil] at hs
  exact h hs.symm

theorem rows_append {p : List Char} (h : EndsRow p) (s : List Char) :
    rows (p ++ s) = rows p ++ rows s := by
  induction p with
  | nil => rfl
  | cons c p ih =>
    by_cases hp : p = []
    · obtain rfl : c = '\n' := by simpa [hp, EndsRow] using h
      simp [hp, rows]
    · have ih := ih (h.of_cons hp)
      by_cases hc : c = '\n'
      · simp [rows, hc, ih]
      · cases hr : rows p with
        | nil => exact absurd hr (rows_ne_nil hp)
        | cons r rs => simp [rows, hc, ih, hr]

theorem rows_append_feed {u : List Char} (h : '\n' ∉ u) (s : List Char) :
    rows (u ++ '\n' :: s) = (u ++ ['\n']) :: rows s := by
  induction u with
  | nil => simp [rows]
  | cons c u ih =>
    simp only [List.mem_cons, not_or] at h
    simp [rows, ih h.2, Ne.symm h.1]

theorem rows_of_clean {u : List Char} (h : '\n' ∉ u) (hne : u ≠ []) : rows u = [u] := by
  induction u with
  | nil => exact absurd rfl hne
  | cons c u ih =>
    simp only [List.mem_cons, not_or] at h
    by_cases hu : u = []
    · simp [hu, rows, Ne.symm h.1]
    · simp [rows, ih h.2 hu, Ne.symm h.1]

theorem length_rows {p : List Char} (h : EndsRow p) : (rows p).length = p.count '\n' := by
  induction p with
  | nil => rfl
  | cons c p ih =>
    by_cases hp : p = []
    · obtain rfl : c = '\n' := by simpa [hp, EndsRow] using h
      simp [hp, rows]
    · have ih := ih (h.of_cons hp)
      by_cases hc : c = '\n'
      · simp [rows, hc, ih]
      · cases hr : rows p with
        | nil => exact absurd hr (rows_ne_nil hp)
        | cons r rs =>
          rw [hr] at ih
          simpa [rows, hc, hr] using ih

theorem withoutBreak_of_clean {u : List Char} (h : '\n' ∉ u) : withoutBreak u = u := by
  fun_induction withoutBreak u with
  | case1 => rfl
  | case2 => simp at h
  | case3 => simp at h
  | case4 c s _ _ ih => rw [ih fun hs => h (List.mem_cons_of_mem c hs)]

theorem withoutBreak_append_feed {u : List Char} (h : '\n' ∉ u) :
    withoutBreak (u ++ ['\n']) = CompletionContext.dropReturn u := by
  induction u with
  | nil => rfl
  | cons c u ih =>
    have ih := ih fun hu => h (List.mem_cons_of_mem c hu)
    by_cases hu : u = []
    · subst hu
      by_cases hc : c = '\r'
      · subst hc
        rfl
      · simp [withoutBreak, hc, CompletionContext.dropReturn]
    · obtain ⟨e, he⟩ := Option.isSome_iff_exists.mp (List.getLast?_isSome.mpr hu)
      have hstep : withoutBreak (c :: (u ++ ['\n'])) = c :: withoutBreak (u ++ ['\n']) := by
        refine withoutBreak.eq_4 c _ (fun _ hnil => ?_) fun _ hfeed => ?_
        · simp at hnil
        · have hlen := congrArg List.length hfeed
          simp only [List.length_append, List.length_cons, List.length_nil] at hlen
          exact hu (List.length_eq_zero_iff.mp (by omega))
      rw [List.cons_append, hstep, ih]
      simp only [CompletionContext.dropReturn, List.getLast?_cons, he, Option.getD_some,
        Option.some.injEq]
      split
      · rw [List.dropLast_cons_of_ne_nil hu]
      · rfl

private theorem exists_feed_of_mem_rows {p r : List Char} (h : EndsRow p) (hr : r ∈ rows p) :
    ∃ u, r = u ++ ['\n'] ∧ '\n' ∉ u := by
  induction p generalizing r with
  | nil => simp [rows] at hr
  | cons c p ih =>
    by_cases hp : p = []
    · obtain rfl : c = '\n' := by simpa [hp, EndsRow] using h
      obtain rfl : r = ['\n'] := by simpa [hp, rows] using hr
      exact ⟨[], rfl, List.not_mem_nil⟩
    · have ih := fun {r} => ih (r := r) (h.of_cons hp)
      by_cases hc : c = '\n'
      · simp only [rows, hc, ↓reduceIte, List.mem_cons] at hr
        rcases hr with rfl | hr
        · exact ⟨[], rfl, List.not_mem_nil⟩
        · exact ih hr
      · cases hrows : rows p with
        | nil => exact absurd hrows (rows_ne_nil hp)
        | cons q qs =>
          rw [hrows] at ih
          simp only [rows, hc, ↓reduceIte, hrows, List.mem_cons] at hr
          rcases hr with rfl | hr
          · obtain ⟨u, rfl, hu⟩ := ih List.mem_cons_self
            refine ⟨c :: u, rfl, ?_⟩
            simp only [List.mem_cons, not_or]
            exact ⟨Ne.symm hc, hu⟩
          · exact ih (List.mem_cons_of_mem q hr)

theorem exists_endsRow_append (s : List Char) :
    ∃ p q, s = p ++ q ∧ EndsRow p ∧ '\n' ∉ q := by
  induction s with
  | nil => exact ⟨[], [], rfl, .inl rfl, List.not_mem_nil⟩
  | cons c s ih =>
    obtain ⟨p, q, rfl, hp, hq⟩ := ih
    by_cases hnil : p = []
    · subst hnil
      by_cases hc : c = '\n'
      · exact ⟨['\n'], q, by rw [hc]; rfl, .inr rfl, hq⟩
      · refine ⟨[], c :: q, rfl, .inl rfl, ?_⟩
        simp only [List.mem_cons, not_or]
        exact ⟨Ne.symm hc, hq⟩
    · refine ⟨c :: p, q, rfl, .inr ?_, hq⟩
      rcases hp with hp | hp
      · exact absurd hp hnil
      · rw [List.getLast?_cons, hp, Option.getD_some]

end Text

namespace CompletionContext

theorem dropReturn_cases (u : List Char) :
    (dropReturn u = u ∧ u.getLast? ≠ some '\r') ∨ u = dropReturn u ++ ['\r'] := by
  unfold dropReturn
  by_cases hu : u.getLast? = some '\r'
  · rw [if_pos hu]
    obtain ⟨v, rfl⟩ := List.getLast?_eq_some_iff.mp hu
    exact .inr (by simp)
  · rw [if_neg hu]
    exact .inl ⟨rfl, hu⟩

theorem dropReturn_length_le (u : List Char) : (dropReturn u).length ≤ u.length := by
  unfold dropReturn
  split <;> simp

end CompletionContext

theorem Text.row_cases {s r : List Char} (h : r ∈ rows s) :
    '\n' ∉ r ∨ ∃ u, r = u ++ ['\n'] ∧ '\n' ∉ u := by
  obtain ⟨p, q, rfl, hp, hq⟩ := exists_endsRow_append s
  rw [rows_append hp, List.mem_append] at h
  rcases h with hrow | hrow
  · exact .inr (exists_feed_of_mem_rows hp hrow)
  · have hq' : q ≠ [] := by
      rintro rfl
      simp [rows] at hrow
    rw [rows_of_clean hq hq', List.mem_singleton] at hrow
    exact .inl (hrow ▸ hq)

theorem Text.not_mem_withoutBreak {s r : List Char} (h : r ∈ rows s) : '\n' ∉ withoutBreak r := by
  rcases row_cases h with hclean | ⟨u, rfl, hu⟩
  · rwa [withoutBreak_of_clean hclean]
  · rw [withoutBreak_append_feed hu]
    rcases CompletionContext.dropReturn_cases u with ⟨hsame, -⟩ | hreturn
    · rwa [hsame]
    · rw [hreturn, List.mem_append, not_or] at hu
      exact hu.1

/-- A text cut into what stands before a line, the line, its break, and what follows. -/
structure Text.Cut where
  before : List Char
  line : List Char
  lineBreak : List Char
  after : List Char
  endsRow : EndsRow before
  clean : '\n' ∉ line
  /-- Only the last line can do without a break, and a return before a lone feed is not text. -/
  broken : (lineBreak = [] ∧ line ≠ [] ∧ after = []) ∨
    (lineBreak = ['\n'] ∧ line.getLast? ≠ some '\r') ∨ lineBreak = ['\r', '\n']

namespace Text.Cut

def text (c : Cut) : List Char := c.before ++ (c.line ++ c.lineBreak ++ c.after)

def asLine (c : Cut) : Line :=
  ⟨(rows c.before).length + 1, c.before.length, c.line,
    c.before.length + (c.line ++ c.lineBreak).length⟩

variable (c : Cut)

theorem rows_text : rows c.text = rows c.before ++ (c.line ++ c.lineBreak) :: rows c.after := by
  rw [text, rows_append c.endsRow]
  rcases c.broken with ⟨hb, hline, hafter⟩ | ⟨hb, -⟩ | hb
  · rw [hb, hafter, List.append_nil, List.append_nil, rows_of_clean c.clean hline]
    rfl
  · rw [hb, List.append_assoc, List.singleton_append, rows_append_feed c.clean]
  · have hclean : '\n' ∉ c.line ++ ['\r'] := by simp [c.clean]
    have hfeed := rows_append_feed hclean c.after
    simp only [List.append_assoc, List.cons_append, List.nil_append] at hfeed
    rw [hb, List.append_assoc, List.cons_append, List.cons_append, List.nil_append, hfeed]

private theorem withoutBreak_row : withoutBreak (c.line ++ c.lineBreak) = c.line := by
  rcases c.broken with ⟨hb, -⟩ | ⟨hb, hlast⟩ | hb
  · rw [hb, List.append_nil, withoutBreak_of_clean c.clean]
  · rw [hb, withoutBreak_append_feed c.clean, CompletionContext.dropReturn, if_neg hlast]
  · have hclean : '\n' ∉ c.line ++ ['\r'] := by simp [c.clean]
    have hreturn := withoutBreak_append_feed hclean
    simp only [List.append_assoc, List.cons_append, List.nil_append] at hreturn
    rw [hb, hreturn, CompletionContext.dropReturn, List.getLast?_concat, if_pos rfl,
      List.dropLast_concat]

end Text.Cut

theorem Line.ofRows_append (number start : Nat) (rs qs : List (List Char)) :
    ofRows number start (rs ++ qs) = ofRows number start rs ++
      ofRows (number + rs.length) (start + rs.flatten.length) qs := by
  induction rs generalizing number start with
  | nil => rfl
  | cons r rs ih =>
    simp only [List.cons_append, ofRows, ih, List.length_cons, List.flatten_cons,
      List.length_append]
    congr 3 <;> omega

theorem Line.length_ofRows (number start : Nat) (rs : List (List Char)) :
    (ofRows number start rs).length = rs.length := by
  induction rs generalizing number start with
  | nil => rfl
  | cons r rs ih => simp [ofRows, ih]

private theorem Line.stop_lt_of_endsRow {p : List Char} (h : Text.EndsRow p) {number start : Nat}
    {l : Line} (hl : l ∈ ofRows number start (Text.rows p)) : l.stop < start + p.length := by
  obtain ⟨i, hi⟩ := List.mem_iff_getElem?.mp hl
  rw [ofRows_getElem?] at hi
  obtain ⟨r, hr, rfl⟩ := Option.map_eq_some_iff.mp hi
  obtain ⟨u, rfl, hu⟩ := Text.exists_feed_of_mem_rows h (List.mem_of_getElem? hr)
  have hflat := congrArg List.length (Text.rows_flatten p)
  rw [← List.take_append_drop (i + 1) (Text.rows p), List.flatten_append, List.length_append,
    List.take_add_one, hr, List.flatten_append, List.length_append, Option.toList_some,
    List.flatten_singleton, List.length_append, List.length_singleton] at hflat
  have hdrop := CompletionContext.dropReturn_length_le u
  simp only [Line.stop, Text.withoutBreak_append_feed hu]
  omega

private theorem Line.le_start_of_mem_ofRows {number start : Nat} {rs : List (List Char)} {l : Line}
    (hl : l ∈ ofRows number start rs) : start ≤ l.start := by
  obtain ⟨i, hi⟩ := List.mem_iff_getElem?.mp hl
  rw [ofRows_getElem?] at hi
  obtain ⟨r, -, rfl⟩ := Option.map_eq_some_iff.mp hi
  exact Nat.le_add_right start _

namespace Document

variable {d : Document} {c : Text.Cut}

theorem lines_of_cut (h : d.text = c.text) :
    d.lines = Line.ofRows 1 0 (Text.rows c.before) ++ c.asLine ::
      Line.ofRows (c.asLine.number + 1) c.asLine.nextStart (Text.rows c.after) := by
  have hflat := congrArg List.length (Text.rows_flatten c.before)
  rw [lines, h, c.rows_text, Line.ofRows_append, hflat, Line.ofRows, c.withoutBreak_row]
  simp only [Text.Cut.asLine, Nat.zero_add, Nat.add_comm 1]

theorem line?_of_cut (h : d.text = c.text) : d.line? c.asLine.number = some c.asLine := by
  change d.lines[(Text.rows c.before).length]? = _
  rw [lines_of_cut h, ← Line.length_ofRows 1 0, List.getElem?_append_right (Nat.le_refl _), Nat.sub_self,
    List.getElem?_cons_zero]

variable (d) in
/-- The line that holds an offset: the offsets of a line run from its start to the end of its
text. -/
def lineHolding? (o : Nat) : Option Line := d.lines.find? fun l => l.start ≤ o && o ≤ l.stop

theorem lineHolding?_of_cut (h : d.text = c.text) {k : Nat} (hk : k ≤ c.line.length) :
    d.lineHolding? (c.before.length + k) = some c.asLine := by
  have hbefore : (Line.ofRows 1 0 (Text.rows c.before)).find?
      (fun l => l.start ≤ c.before.length + k && c.before.length + k ≤ l.stop) = none := by
    refine List.find?_eq_none.mpr fun l hl => ?_
    have hstop := Line.stop_lt_of_endsRow c.endsRow hl
    simp only [Bool.and_eq_true, decide_eq_true_eq]
    omega
  rw [lineHolding?, lines_of_cut h, List.find?_append, hbefore, Option.none_or,
    List.find?_cons_of_pos]
  simp only [Bool.and_eq_true, decide_eq_true_eq]
  simp only [Text.Cut.asLine, Line.stop]
  omega

private theorem lineHolding?_of_pair (h : d.text = c.text) (hpair : c.lineBreak = ['\r', '\n']) :
    d.lineHolding? (c.before.length + c.line.length + 1) = none := by
  refine List.find?_eq_none.mpr fun l hl => ?_
  rw [lines_of_cut h, List.mem_append, List.mem_cons] at hl
  simp only [Bool.and_eq_true, decide_eq_true_eq]
  rcases hl with hbefore | rfl | hafter
  · have hstop := Line.stop_lt_of_endsRow c.endsRow hbefore
    omega
  · simp only [Text.Cut.asLine, Line.stop]
    omega
  · have hstart := Line.le_start_of_mem_ofRows hafter
    simp only [Text.Cut.asLine, hpair, List.length_append, List.length_cons] at hstart
    omega

theorem lineHolding?_of_endsRow (h : Text.EndsRow d.text) : d.lineHolding? d.length = none := by
  refine List.find?_eq_none.mpr fun l hl => ?_
  have hstop := Line.stop_lt_of_endsRow h hl
  simp only [Bool.and_eq_true, decide_eq_true_eq]
  rw [length]
  omega

theorem rowStart_of_endsRow {p s : List Char} (h : d.text = p ++ s) (hp : Text.EndsRow p) :
    d.rowStart (Text.rows p).length = p.length := by
  rw [rowStart, h, Text.rows_append hp, List.take_left, Text.rows_flatten]

theorem position_eq {p q s : List Char} (h : d.text = p ++ (q ++ s)) (hp : Text.EndsRow p)
    (hq : '\n' ∉ q) {o : Nat} (ho : d.clamp o = p.length + q.length) :
    d.position o = ((Text.rows p).length, q.length) := by
  have hcount : (d.text.take (p.length + q.length)).count '\n' = (Text.rows p).length := by
    rw [h, ← List.append_assoc, ← List.length_append, List.take_left, List.count_append,
      List.count_eq_zero.mpr hq, Nat.add_zero, Text.length_rows hp]
  simp only [position, ho, hcount, rowStart_of_endsRow h hp, Nat.add_sub_cancel_left]

theorem beforeCursor_eq {p q s : List Char} (h : d.text = p ++ (q ++ s)) (hp : Text.EndsRow p)
    (hq : '\n' ∉ q) {o : Nat} (ho : d.clamp o = p.length + q.length) :
    d.beforeCursor o = ((Text.rows p).length + 1, q) := by
  have hclamp : d.clamp (p.length + q.length) = p.length + q.length := by
    rw [← ho]
    simp [clamp]
  simp only [beforeCursor, ho, position_eq h hp hq hclamp, Nat.add_sub_cancel]
  rw [h, List.drop_left, List.take_left]

end Document

namespace Text

inductive Stands (s : List Char) (o : Nat) : Prop
  | inLine (c : Cut) (k : Nat) (text : s = c.text) (inside : k ≤ c.line.length)
      (place : o = c.before.length + k)
  | inBreak (c : Cut) (text : s = c.text) (pair : c.lineBreak = ['\r', '\n'])
      (place : o = c.before.length + c.line.length + 1)
  | afterLast (ends : EndsRow s) (place : o = s.length)

theorem stands {s : List Char} {o : Nat} (ho : o ≤ s.length) : Stands s o := by
  obtain ⟨p, q, hpq, hp, hq⟩ := exists_endsRow_append (s.take o)
  have hlen : o = p.length + q.length := by
    have h := congrArg List.length hpq
    rw [List.length_take, List.length_append] at h
    omega
  have hsplit : s = p ++ (q ++ s.drop o) := by
    rw [← List.append_assoc, ← hpq, List.take_append_drop]
  by_cases hfeed : '\n' ∈ s.drop o
  · obtain ⟨q', after, hdrop, hq'⟩ := List.eq_append_cons_of_mem hfeed
    rw [hdrop, ← List.append_assoc q] at hsplit
    have hclean : '\n' ∉ q ++ q' := by simp [hq, hq']
    have hle : q.length ≤ (q ++ q').length := by simp
    generalize q ++ q' = u at hsplit hclean hle
    -- The row is `u`; a return at its end belongs to the break, and the cursor may stand after it.
    rcases CompletionContext.dropReturn_cases u with ⟨-, hlast⟩ | hreturn
    · refine .inLine ⟨p, u, ['\n'], after, hp, hclean, .inr (.inl ⟨rfl, hlast⟩)⟩ q.length ?_ hle hlen
      simpa [Cut.text] using hsplit
    · generalize CompletionContext.dropReturn u = v at hreturn
      subst hreturn
      have hv : '\n' ∉ v := fun hmem => hclean (List.mem_append_left _ hmem)
      have htext : s = Cut.text ⟨p, v, ['\r', '\n'], after, hp, hv, .inr (.inr rfl)⟩ := by
        simpa [Cut.text] using hsplit
      by_cases hin : q.length ≤ v.length
      · exact .inLine _ q.length htext hin hlen
      · refine .inBreak _ htext rfl ?_
        rw [List.length_append, List.length_singleton] at hle
        change o = p.length + v.length + 1
        omega
  · have hclean : '\n' ∉ q ++ s.drop o := by simp [hq, hfeed]
    by_cases hu : q ++ s.drop o = []
    · rw [hu, List.append_nil] at hsplit
      have hqnil := (List.append_eq_nil_iff.mp hu).1
      refine .afterLast (hsplit ▸ hp) ?_
      rw [hlen, hqnil, List.length_nil, Nat.add_zero, ← hsplit]
    · refine .inLine ⟨p, q ++ s.drop o, [], [], hp, hclean, .inl ⟨rfl, hu, rfl⟩⟩ q.length ?_ ?_ hlen
      · simpa [Cut.text] using hsplit
      · simp

end Text

theorem Document.exists_cut_of_lineHolding? {d : Document} {o : Nat} (ho : o ≤ d.length) {l : Line}
    (hl : d.lineHolding? o = some l) :
    ∃ (c : Text.Cut) (k : Nat), d.text = c.text ∧ l = c.asLine ∧ k ≤ c.line.length ∧
      o = c.before.length + k := by
  rcases Text.stands ho with
    ⟨c, k, htext, hinside, rfl⟩ | ⟨c, htext, hpair, rfl⟩ | ⟨hends, hplace⟩
  · rw [lineHolding?_of_cut htext hinside, Option.some.injEq] at hl
    exact ⟨c, k, htext, hl.symm, hinside, rfl⟩
  · rw [lineHolding?_of_pair htext hpair] at hl
    cases hl
  · rw [show o = d.length from hplace, lineHolding?_of_endsRow hends] at hl
    cases hl

end MetaBlocks
