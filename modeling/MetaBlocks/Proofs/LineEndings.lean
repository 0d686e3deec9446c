import Mathlib.Order.MinMax
import MetaBlocks.Proofs.CursorContexts
import MetaBlocks.Proofs.Relocation
import MetaBlocks.Proofs.Tiling

/-!
Line endings make no difference. In a text without carriage returns, put one before every line feed:
the lines keep their numbers and their texts, and every offset moves by the number of line feeds
before it. So detection and completion find the same, with their offsets moved.
-/

set_option autoImplicit false
set_option relaxedAutoImplicit false

namespace MetaBlocks

namespace Text

def withReturns (s : List Char) : List Char :=
  s.flatMap fun c => if c = '\n' then ['\r', '\n'] else [c]

private theorem withReturns_append (s t : List Char) :
    withReturns (s ++ t) = withReturns s ++ withReturns t := List.flatMap_append

private theorem withReturns_feed (s : List Char) :
    withReturns ('\n' :: s) = '\r' :: '\n' :: withReturns s := rfl

private theorem withReturns_of_clean {u : List Char} (h : '\n' ∉ u) : withReturns u = u := by
  induction u with
  | nil => rfl
  | cons c u ih =>
    simp only [List.mem_cons, not_or] at h
    have hrest := ih h.2
    rw [withReturns] at hrest ⊢
    rw [List.flatMap_cons, hrest, if_neg (Ne.symm h.1), List.singleton_append]

private theorem length_withReturns (s : List Char) :
    (withReturns s).length = s.length + s.count '\n' := by
  induction s using induction_feed with
  | clean u hu => rw [withReturns_of_clean hu, List.count_eq_zero.mpr hu, Nat.add_zero]
  | feed u s hu ih =>
    rw [withReturns_append, withReturns_feed, withReturns_of_clean hu]
    simp only [List.length_append, List.length_cons, List.count_append, List.count_cons_self, ih,
      List.count_eq_zero.mpr hu]
    omega

private theorem EndsRow.withReturns {p : List Char} (h : EndsRow p) : EndsRow (withReturns p) := by
  rcases h with rfl | h
  · exact .inl rfl
  · obtain ⟨s, rfl⟩ := List.getLast?_eq_some_iff.mp h
    right
    rw [withReturns_append, List.getLast?_append]
    rfl

private theorem rows_withReturns (s : List Char) :
    rows (withReturns s) = (rows s).map withReturns := by
  induction s using induction_feed with
  | clean u hu =>
    rw [withReturns_of_clean hu]
    by_cases hnil : u = []
    · subst hnil
      rfl
    · rw [rows_of_clean hu hnil, List.map_singleton, withReturns_of_clean hu]
  | feed u s hu ih =>
    have hreturn : '\n' ∉ u ++ ['\r'] := by simp [hu]
    have hsplit : withReturns (u ++ '\n' :: s) = (u ++ ['\r']) ++ '\n' :: withReturns s := by
      rw [withReturns_append, withReturns_feed, withReturns_of_clean hu, List.append_assoc]
      rfl
    rw [hsplit, rows_append_feed hreturn, rows_append_feed hu, ih, List.map_cons,
      withReturns_append, withReturns_of_clean hu, List.append_assoc]
    rfl

private theorem withoutBreak_withReturns {s r : List Char} (hr : r ∈ rows s) (hreturn : '\r' ∉ r) :
    withoutBreak (withReturns r) = withoutBreak r := by
  rcases row_cases hr with hclean | ⟨u, rfl, hu⟩
  · rw [withReturns_of_clean hclean]
  · have hpair : '\n' ∉ u ++ ['\r'] := by simp [hu]
    have hlast : u.getLast? ≠ some '\r' := by
      intro hlast
      exact hreturn (List.mem_append_left _ (List.mem_of_getLast? hlast))
    have hsplit : withReturns (u ++ ['\n']) = (u ++ ['\r']) ++ ['\n'] := by
      rw [withReturns_append, withReturns_of_clean hu, List.append_assoc]
      rfl
    rw [hsplit, withoutBreak_append_feed hpair, withoutBreak_append_feed hu,
      CompletionContext.dropReturn, CompletionContext.dropReturn, List.getLast?_concat, if_pos rfl,
      List.dropLast_concat, if_neg hlast]

end Text

namespace Document

variable (d : Document)

def withReturns : Document := ⟨Text.withReturns d.text, d.revision⟩

/-- Where an offset goes when carriage returns are put before the line feeds. -/
def pastReturns (o : Nat) : Nat := o + (d.text.take o).count '\n'

private theorem monotone_pastReturns : Monotone d.pastReturns := by
  intro o o' hle
  have hcount : (d.text.take o).count '\n' ≤ (d.text.take o').count '\n' :=
    (List.take_sublist_take_left hle).count_le '\n'
  unfold pastReturns
  omega

variable {d}

private theorem pastReturns_eq {p q s : List Char} (h : d.text = p ++ (q ++ s)) (hq : '\n' ∉ q) :
    d.pastReturns (p.length + q.length) = (Text.withReturns p).length + q.length := by
  have htake : d.text.take (p.length + q.length) = p ++ q := by
    rw [h, ← List.append_assoc, ← List.length_append, List.take_left]
  rw [pastReturns, htake, List.count_append, List.count_eq_zero.mpr hq, Text.length_withReturns]
  omega

variable (d)

private theorem length_withReturns : d.withReturns.length = d.pastReturns d.length := by
  rw [pastReturns, length, length, List.take_length, withReturns, Text.length_withReturns]

private theorem clamp_pastReturns (o : Nat) :
    d.withReturns.clamp (d.pastReturns o) = d.pastReturns (d.clamp o) := by
  rw [clamp, length_withReturns, clamp, d.monotone_pastReturns.map_min]

end Document

def Relocation.pastReturns (d : Document) : Relocation where
  line := id
  offset := d.pastReturns
  line_succ := fun _ => rfl

variable {d : Document}

private theorem Line.forall₂_moved_withReturns (before : List Char) (rs : List (List Char))
    (h : d.text = before ++ rs.flatten) (hrows : ∀ r ∈ rs, r ∈ Text.rows d.text)
    (hreturn : '\r' ∉ d.text) (number : Nat) :
    List.Forall₂ (Line.Moved (.pastReturns d)) (ofRows number before.length rs)
      (ofRows number (Text.withReturns before).length (rs.map Text.withReturns)) := by
  induction rs generalizing before number with
  | nil => exact .nil
  | cons r rs ih =>
    have hr := hrows r List.mem_cons_self
    have hsplit : d.text = (before ++ r) ++ rs.flatten := by
      rw [h, List.flatten_cons, List.append_assoc]
    have hrest := ih (before ++ r) hsplit (fun q hq => hrows q (List.mem_cons_of_mem r hq)) (number + 1)
    rw [Text.withReturns_append, List.length_append, List.length_append] at hrest
    refine .cons ⟨?_, rfl, ?_, ?_⟩ hrest
    · refine Text.withoutBreak_withReturns hr fun hmem => hreturn ?_
      rw [hsplit]
      simp [hmem]
    · intro k hk
      -- What stands on the line before the offset has no line feed.
      have hlen : ((Text.withoutBreak r).take k).length = k := List.length_take_of_le hk
      have hclean : '\n' ∉ (Text.withoutBreak r).take k := by
        intro hmem
        exact Text.not_mem_withoutBreak hr (List.mem_of_mem_take hmem)
      obtain ⟨b, hb, -⟩ := Text.exists_break r
      have hline : d.text = before ++ ((Text.withoutBreak r).take k ++
          ((Text.withoutBreak r).drop k ++ (b ++ rs.flatten))) := by
        rw [← List.append_assoc ((Text.withoutBreak r).take k), List.take_append_drop,
          ← List.append_assoc _ b, ← hb, h, List.flatten_cons]
      have hpast := Document.pastReturns_eq hline hclean
      rw [hlen] at hpast
      exact hpast.symm
    · have hpast := Document.pastReturns_eq (p := before ++ r) (q := []) hsplit List.not_mem_nil
      rw [Text.withReturns_append, List.length_append, List.length_append] at hpast
      exact hpast.symm

namespace Document

private theorem forall₂_moved_lines (h : '\r' ∉ d.text) :
    List.Forall₂ (Line.Moved (.pastReturns d)) d.lines d.withReturns.lines := by
  have hmoved := Line.forall₂_moved_withReturns [] (Text.rows d.text) (Text.rows_flatten d.text).symm
    (fun _ hr => hr) h 1
  rw [← Text.rows_withReturns] at hmoved
  exact hmoved

private theorem forall₂_moved_kindedLines (h : '\r' ∉ d.text) :
    List.Forall₂ (KindedLine.Moved (.pastReturns d)) d.kindedLines d.withReturns.kindedLines := by
  rw [kindedLines, kindedLines, List.forall₂_map_left_iff, List.forall₂_map_right_iff]
  exact (forall₂_moved_lines h).imp fun _ _ hmoved => KindedLine.moved_ofLine hmoved

private theorem rel_line? (h : '\r' ∉ d.text) (n : Nat) :
    Option.Rel (Line.Moved (.pastReturns d)) (d.line? n) (d.withReturns.line? n) := by
  cases n with
  | zero => exact .none
  | succ i =>
    have hlines := forall₂_moved_lines h
    rw [line?, line?]
    generalize d.lines = ls, d.withReturns.lines = ms at hlines
    induction hlines generalizing i with
    | nil => exact .none
    | cons hmoved _ ih =>
      cases i with
      | zero => exact .some hmoved
      | succ i => exact ih i

end Document

private theorem Line.Moved.trimEnd {m : Relocation} {l l' : Line} (h : l.Moved m l') :
    l'.start + (Text.trimEnd l'.text).length = m.offset (l.start + (Text.trimEnd l.text).length) := by
  obtain ⟨t, ht, -⟩ := Text.exists_append_trimEnd l.text
  have hshort : (Text.trimEnd l.text).length ≤ l.text.length := by
    have hlen := congrArg List.length ht
    rw [List.length_append] at hlen
    omega
  rw [h.text]
  exact h.within _ hshort

def CompletionContext.relocate (m : Relocation) (x : CompletionContext) : CompletionContext :=
  ⟨x.keyword, m.line x.line, x.typed, x.replaced.relocate m.offset⟩

namespace CompletionContext

private theorem dropReturn_of_not_mem {u : List Char} (h : '\r' ∉ u) : dropReturn u = u :=
  if_neg fun hlast => h (List.mem_of_getLast? hlast)

private theorem exists_append_of_keywordPrefix? {s typed : List Char} {k : Keyword}
    (h : keywordPrefix? s = some (k, typed)) : ∃ u, s = u ++ typed := by
  obtain ⟨indent, rest, -, hs, rfl⟩ := keywordPrefix?_eq_some_iff.mp h
  refine ⟨indent ++ (k.word ++ ':' :: rest.takeWhile Text.isBlank), ?_⟩
  rw [hs]
  simp only [List.append_assoc, List.cons_append, Text.takeWhile_append_trimStart]

private theorem pastReturns_sub {p u v s : List Char} (h : d.text = p ++ ((u ++ v) ++ s))
    (hclean : '\n' ∉ u ++ v) :
    d.pastReturns (p.length + (u ++ v).length - v.length) =
      d.pastReturns (p.length + (u ++ v).length) - v.length := by
  have hu : '\n' ∉ u := fun hmem => hclean (List.mem_append_left v hmem)
  have hwhole := Document.pastReturns_eq h hclean
  rw [List.append_assoc] at h
  have hpart := Document.pastReturns_eq h hu
  rw [hwhole, List.length_append, ← Nat.add_assoc, Nat.add_sub_cancel, hpart]
  omega

private theorem atCursor?_withReturns (h : '\r' ∉ d.text) (cursor : Nat) :
    atCursor? d.withReturns (d.pastReturns cursor) =
      (atCursor? d cursor).map (relocate (.pastReturns d)) := by
  obtain ⟨p, q, s, hsplit, hp, hq, hclamp⟩ := d.exists_row_before cursor
  have hsplit' : d.withReturns.text = Text.withReturns p ++ (q ++ Text.withReturns s) := by
    have hall := congrArg Text.withReturns hsplit
    rwa [Text.withReturns_append, Text.withReturns_append, Text.withReturns_of_clean hq] at hall
  have hpast := Document.pastReturns_eq hsplit hq
  have hclamp' : d.withReturns.clamp (d.pastReturns cursor) =
      (Text.withReturns p).length + q.length := by
    rw [d.clamp_pastReturns, hclamp, hpast]
  have hsame : dropReturn q = q := by
    refine dropReturn_of_not_mem fun hmem => h ?_
    rw [hsplit]
    simp [hmem]
  have hback : d.backOverReturn cursor = p.length + q.length := by
    rw [Document.backOverReturn_eq hsplit hp hclamp, hsame]
  have hback' : d.withReturns.backOverReturn (d.pastReturns cursor) =
      d.pastReturns (p.length + q.length) := by
    rw [Document.backOverReturn_eq hsplit' hp.withReturns hclamp', hsame, hpast]
  rw [atCursor?_eq hsplit hp hq hclamp, atCursor?_eq hsplit' hp.withReturns hq hclamp', hback, hback',
    Text.rows_withReturns, List.length_map, hsame, Option.map_map]
  refine Option.map_congr fun x hx => ?_
  obtain ⟨u, rfl⟩ := exists_append_of_keywordPrefix? hx
  have hline := Document.rel_line? h ((Text.rows p).length + 1)
  generalize d.line? ((Text.rows p).length + 1) = l?,
    d.withReturns.line? ((Text.rows p).length + 1) = l'? at hline
  simp only [Function.comp_apply, relocate, Extent.relocate, Relocation.pastReturns, id_eq,
    pastReturns_sub hsplit hq, d.monotone_pastReturns.map_max]
  cases hline with
  | none => rfl
  | some hmoved => simp only [Option.map_some, Option.getD_some, hmoved.trimEnd, Relocation.pastReturns]

private theorem return_not_mem_line (h : '\r' ∉ d.text) {l : Line} (hl : l ∈ d.withReturns.lines) :
    '\r' ∉ l.text := by
  intro hmem
  obtain ⟨i, hi⟩ := List.mem_iff_getElem?.mp hl
  have hrel := Document.rel_line? h (i + 1)
  rw [Document.line?, Document.line?, hi] at hrel
  cases hbefore : d.lines[i]? with
  | none =>
    rw [hbefore] at hrel
    cases hrel
  | some l' =>
    rw [hbefore] at hrel
    cases hrel with
    | some hmoved =>
      obtain ⟨c, htext, rfl⟩ := Document.exists_cut_of_mem_lines (List.mem_of_getElem? hbefore)
      rw [hmoved.text] at hmem
      have hline : '\r' ∈ c.line := hmem
      apply h
      rw [htext, Text.Cut.text]
      simp [hline]

private theorem exists_pair_of_return (h : '\r' ∉ d.text) {o : Nat}
    (ho : d.withReturns.text[o]? = some '\r') :
    ∃ c : Text.Cut, d.withReturns.text = c.text ∧ c.lineBreak = ['\r', '\n'] ∧
      o = c.before.length + c.line.length := by
  have hlt := (List.getElem?_eq_some_iff.mp ho).1
  rcases Text.stands (Nat.le_of_lt hlt) with
    ⟨c, k, htext, hinside, rfl⟩ | ⟨c, htext, hpair, rfl⟩ | ⟨-, hplace⟩
  · rw [htext, Text.Cut.text, List.getElem?_append_right (Nat.le_add_right _ _),
      Nat.add_sub_cancel_left, List.append_assoc] at ho
    by_cases hk : k < c.line.length
    · rw [List.getElem?_append_left hk] at ho
      have hline := return_not_mem_line h (l := c.asLine) (by
        rw [Document.lines_of_cut htext]
        simp)
      exact absurd (List.mem_of_getElem? ho) hline
    · have hend : k = c.line.length := by omega
      rw [hend, List.getElem?_append_right (Nat.le_refl _), Nat.sub_self] at ho
      refine ⟨c, htext, ?_, by rw [hend]⟩
      rcases c.broken with ⟨hnone, -, hafter⟩ | ⟨hfeed, -⟩ | hpair
      · simp [hnone, hafter] at ho
      · simp [hfeed] at ho
      · exact hpair
  · rw [htext, Text.Cut.text, Nat.add_assoc, List.getElem?_append_right (Nat.le_add_right _ _),
      Nat.add_sub_cancel_left, List.append_assoc, List.getElem?_append_right (Nat.le_add_right _ _),
      Nat.add_sub_cancel_left, hpair] at ho
    simp at ho
  · omega

private theorem atCursor?_inside_pair (h : '\r' ∉ d.text) {o : Nat}
    (ho : d.withReturns.text[o]? = some '\r') :
    ∃ l ∈ d.withReturns.lines, l.stop = o ∧ l.nextStart = o + 2 ∧
      atCursor? d.withReturns (o + 1) = atCursor? d.withReturns l.stop := by
  obtain ⟨c, htext, hpair, rfl⟩ := exists_pair_of_return h ho
  have hmem : c.asLine ∈ d.withReturns.lines := by
    rw [Document.lines_of_cut htext]
    simp
  have hsame : dropReturn c.line = c.line :=
    dropReturn_of_not_mem (return_not_mem_line h hmem)
  have hlen := congrArg List.length htext
  simp only [Text.Cut.text, hpair, List.length_append, List.length_cons] at hlen
  have hat : d.withReturns.text = c.before ++ (c.line ++ (c.lineBreak ++ c.after)) := by
    rw [htext, Text.Cut.text, List.append_assoc]
  have hinside : d.withReturns.text = c.before ++ ((c.line ++ ['\r']) ++ '\n' :: c.after) := by
    rw [hat, hpair, List.append_assoc]
    rfl
  have hclamp : d.withReturns.clamp (c.before.length + c.line.length) =
      c.before.length + c.line.length := by
    rw [Document.clamp, Document.length]
    omega
  have hclamp' : d.withReturns.clamp (c.before.length + c.line.length + 1) =
      c.before.length + (c.line ++ ['\r']).length := by
    rw [Document.clamp, Document.length, List.length_append, List.length_singleton]
    omega
  have hdrop : dropReturn (c.line ++ ['\r']) = c.line := by simp [dropReturn]
  refine ⟨c.asLine, hmem, rfl, ?_, ?_⟩
  · simp only [Text.Cut.asLine, hpair, List.length_append, List.length_cons, List.length_nil]
    omega
  · change _ = atCursor? d.withReturns (c.before.length + c.line.length)
    rw [atCursor?_eq_classified?_backOverReturn, atCursor?_eq_classified?_backOverReturn,
      Document.backOverReturn_eq hinside c.endsRow hclamp',
      Document.backOverReturn_eq hat c.endsRow hclamp, hdrop, hsame]

end CompletionContext

/-- With a carriage return before every line feed, a document without returns is detected and
completed alike, every offset moved past the returns before it; a cursor between a return and its
feed counts as one at the end of the line's text. -/
theorem Document.withReturns_transparent (h : '\r' ∉ d.text) :
    (∀ r, Detection.ofDocument r d.withReturns =
      (Detection.ofDocument r d).relocate (.pastReturns d)) ∧
    (∀ cursor, CompletionContext.atCursor? d.withReturns (d.pastReturns cursor) =
      (CompletionContext.atCursor? d cursor).map (·.relocate (.pastReturns d))) ∧
    (∀ o, d.withReturns.text[o]? = some '\r' → ∃ l ∈ d.withReturns.lines, l.stop = o ∧
      l.nextStart = o + 2 ∧ CompletionContext.atCursor? d.withReturns (o + 1) =
        CompletionContext.atCursor? d.withReturns l.stop) := by
  refine ⟨?_, ?_, ?_⟩
  · intro r
    have hlines := forall₂_moved_kindedLines h
    exact (Detection.corresponds_ofDocument KindedLine.alike_moved r hlines).eq_relocate
  · intro cursor
    exact CompletionContext.atCursor?_withReturns h cursor
  · intro o ho
    exact CompletionContext.atCursor?_inside_pair h ho

theorem Document.withReturns_transparent_scope :
    let d : Document := .ofText "---\nSCOPE: a\n---\n\n---\n".toList
    '\r' ∉ d.text ∧ d.withReturns.text = "---\r\nSCOPE: a\r\n---\r\n\r\n---\r\n".toList ∧
      Detection.ofDocument {} d.withReturns =
        (Detection.ofDocument {} d).relocate (.pastReturns d) ∧
      CompletionContext.atCursor? d.withReturns 12 =
        (CompletionContext.atCursor? d 11).map (·.relocate (.pastReturns d)) ∧
      d.withReturns.text[13]? = some '\r' ∧
      ∃ l ∈ d.withReturns.lines, l.stop = 13 ∧ CompletionContext.atCursor? d.withReturns 14 =
        CompletionContext.atCursor? d.withReturns l.stop := by
  intro d
  have h : '\r' ∉ d.text := by decide
  have hreturn : d.withReturns.text[13]? = some '\r' := by decide
  obtain ⟨hdetection, hcursor, hinside⟩ := Document.withReturns_transparent h
  obtain ⟨l, hl, hstop, -, hsame⟩ := hinside 13 hreturn
  exact ⟨h, by decide, hdetection {}, hcursor 11, hreturn, l, hl, hstop, hsame⟩

end MetaBlocks
