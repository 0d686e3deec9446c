import Mathlib.Data.List.TakeWhile
import MetaBlocks.Proofs.Lines

/-!
Where the sections of a document stand. The heads of the sections are the delimiter lines, the body
of a section is exactly what lies between two consecutive ones, and the lines above and below a
head are its neighbours by number.
-/

set_option autoImplicit false
set_option relaxedAutoImplicit false

namespace MetaBlocks

namespace Section

theorem map_head_ofLines (above : Option KindedLine) (ls : List KindedLine) :
    (ofLines above ls).map head = ls.filter KindedLine.isDelimiter := by
  induction ls generalizing above with
  | nil => rfl
  | cons l ls ih => by_cases hl : l.isDelimiter <;> simp [ofLines, hl, ih]

private theorem head?_dropWhile_eq (above : Option KindedLine) (ls : List KindedLine) :
    (ls.dropWhile fun m => !m.isDelimiter).head? = (ofLines above ls)[0]?.map head := by
  rw [← List.getElem?_map, map_head_ofLines, ← List.head?_eq_getElem?, List.head?_filter,
    List.find?_eq_head?_dropWhile_not]

private theorem split_at {above : Option KindedLine} {ls : List KindedLine} {i : Nat} {s : Section}
    (h : (ofLines above ls)[i]? = some s) :
    ∃ pre post, ls = pre ++ s.head :: (s.body ++ post) ∧ s.above = pre.getLast?.or above ∧
      (∀ m ∈ s.body, m.isDelimiter = false) ∧
      post.head? = (ofLines above ls)[i + 1]?.map head := by
  induction ls generalizing above i with
  | nil => simp [ofLines] at h
  | cons l ls ih =>
    -- Both remaining cases step over `l`, which becomes the line above.
    have step {j : Nat} (hs : (ofLines (some l) ls)[j]? = some s) :
        ∃ pre post, l :: ls = pre ++ s.head :: (s.body ++ post) ∧
          s.above = pre.getLast?.or above ∧ (∀ m ∈ s.body, m.isDelimiter = false) ∧
          post.head? = (ofLines (some l) ls)[j + 1]?.map head := by
      obtain ⟨pre, post, hls, habove, hbody, hpost⟩ := ih hs
      refine ⟨l :: pre, post, by rw [hls, List.cons_append], ?_, hbody, hpost⟩
      rw [habove, List.getLast?_cons]
      cases pre.getLast? <;> rfl
    by_cases hl : l.isDelimiter
    · rw [ofLines, if_pos hl] at h ⊢
      cases i with
      | zero =>
        rw [List.getElem?_cons_zero, Option.some.injEq] at h
        subst h
        refine ⟨[], ls.dropWhile fun m => !m.isDelimiter, ?_, rfl, ?_, ?_⟩
        · rw [List.nil_append, List.takeWhile_append_dropWhile]
        · intro m hm
          simpa using List.mem_takeWhile_imp hm
        · exact head?_dropWhile_eq (some l) ls
      | succ i =>
        rw [List.getElem?_cons_succ] at h
        exact step h
    · rw [ofLines, if_neg hl] at h ⊢
      exact step h

end Section

namespace Document

variable (d : Document)

def delimiterLines : List KindedLine := d.kindedLines.filter KindedLine.isDelimiter

def linesBetween (low high : Nat) : List KindedLine :=
  d.kindedLines.filter fun l => low < l.line.number && l.line.number < high

/-- Some keyword line or entry lies after the delimiter line at an index and before the next
delimiter line, or before the end of the document if there is no next one. -/
def HasContent (i : Nat) : Prop :=
  ∃ o ∈ d.delimiterLines[i]?, ∃ l ∈ d.kindedLines, l.qualifies ∧
    o.line.number < l.line.number ∧ ∀ c ∈ d.delimiterLines[i + 1]?, l.line.number < c.line.number

theorem map_head_sections : d.sections.map Section.head = d.delimiterLines :=
  Section.map_head_ofLines none d.kindedLines

theorem delimiterLines_getElem? (i : Nat) :
    d.delimiterLines[i]? = d.sections[i]?.map Section.head := by
  rw [← d.map_head_sections, List.getElem?_map]

theorem kindedLines_sorted :
    d.kindedLines.Pairwise fun k m => k.line.number < m.line.number := by
  rw [List.pairwise_iff_getElem]
  intro i j hi hj hij
  rw [d.number_of_kindedLine_at (List.getElem?_eq_getElem hi),
    d.number_of_kindedLine_at (List.getElem?_eq_getElem hj)]
  omega

theorem delimiterLines_sorted :
    d.delimiterLines.Pairwise fun k m => k.line.number < m.line.number :=
  d.kindedLines_sorted.filter _

variable {d} {i : Nat} {s : Section}

theorem exists_split (h : d.sections[i]? = some s) :
    ∃ pre post, d.kindedLines = pre ++ s.head :: (s.body ++ post) ∧ s.above = pre.getLast? ∧
      (∀ m ∈ s.body, m.isDelimiter = false) ∧ post.head? = d.delimiterLines[i + 1]? := by
  obtain ⟨pre, post, hls, habove, hbody, hpost⟩ := Section.split_at h
  refine ⟨pre, post, hls, by simpa using habove, hbody, ?_⟩
  rw [hpost, delimiterLines_getElem?, sections]

theorem mem_body_iff (h : d.sections[i]? = some s) {l : KindedLine} :
    l ∈ s.body ↔ l ∈ d.kindedLines ∧ s.head.line.number < l.line.number ∧
      ∀ c ∈ d.delimiterLines[i + 1]?, l.line.number < c.line.number := by
  obtain ⟨pre, post, hls, -, -, hpost⟩ := exists_split h
  have hsort := d.kindedLines_sorted
  rw [hls] at hsort ⊢
  rw [List.pairwise_append] at hsort
  obtain ⟨-, hrest, hpre⟩ := hsort
  rw [List.pairwise_cons, List.pairwise_append] at hrest
  obtain ⟨hhead, -, hposts, hbody⟩ := hrest
  constructor
  · intro hl
    refine ⟨by simp [hl], hhead l (List.mem_append_left post hl), ?_⟩
    intro c hc
    exact hbody l hl c (List.mem_of_head? (hpost.trans hc))
  · rintro ⟨hmem, hlow, hhigh⟩
    rcases List.mem_append.mp hmem with hl | hl
    · have hlt := hpre l hl s.head List.mem_cons_self
      omega
    rcases List.mem_cons.mp hl with rfl | hl
    · omega
    rcases List.mem_append.mp hl with hl | hl
    · exact hl
    -- A line after the body is the next delimiter line or comes after it.
    · cases post with
      | nil => simp at hl
      | cons c post =>
        have hc := hhigh c hpost.symm
        rcases List.mem_cons.mp hl with rfl | hl
        · omega
        · have hlt := (List.pairwise_cons.mp hposts).1 l hl
          omega

theorem qualifies_iff (h : d.sections[i]? = some s) : s.qualifies = true ↔ d.HasContent i := by
  have ho : d.delimiterLines[i]? = some s.head := by rw [delimiterLines_getElem?, h, Option.map_some]
  rw [Section.qualifies, List.any_eq_true, HasContent, ho]
  simp only [Option.mem_some_iff, exists_eq_left', mem_body_iff h]
  constructor
  · rintro ⟨l, ⟨hmem, hbounds⟩, hq⟩
    exact ⟨l, hmem, hq, hbounds⟩
  · rintro ⟨l, hmem, hq, hbounds⟩
    exact ⟨l, ⟨hmem, hbounds⟩, hq⟩

theorem body_eq_linesBetween {t : Section} (h : d.sections[i]? = some s)
    (ht : d.sections[i + 1]? = some t) :
    s.body = d.linesBetween s.head.line.number t.head.line.number := by
  have hnext : d.delimiterLines[i + 1]? = some t.head := by
    rw [delimiterLines_getElem?, ht, Option.map_some]
  obtain ⟨pre, post, hls, -⟩ := exists_split h
  have hsub : s.body.Sublist d.kindedLines := by
    rw [hls]
    exact ((List.sublist_append_left _ _).cons _).trans (List.sublist_append_right _ _)
  have hbody := d.kindedLines_sorted.sublist hsub
  have hbetween : (d.linesBetween s.head.line.number t.head.line.number).Pairwise
      fun k m => k.line.number < m.line.number := d.kindedLines_sorted.filter _
  -- Two lists in strict order with the same members are equal.
  refine List.Perm.eq_of_pairwise (fun k m _ _ hkm hmk => absurd hkm (by omega)) hbody hbetween ?_
  have nodup {ks : List KindedLine} (hk : ks.Pairwise fun k m => k.line.number < m.line.number) :
      ks.Nodup := hk.imp fun hlt he => by simp [he] at hlt
  rw [List.perm_ext_iff_of_nodup (nodup hbody) (nodup hbetween)]
  intro l
  simp [mem_body_iff h, hnext, linesBetween]

private theorem kindedLines_getElem? (n : Nat) :
    d.kindedLines[n]? = (d.line? (n + 1)).map .ofLine := by
  rw [kindedLines, List.getElem?_map, line?]

theorem above_eq_line? (h : d.sections[i]? = some s) :
    s.above = (d.line? (s.head.line.number - 1)).map .ofLine := by
  obtain ⟨pre, post, hls, habove, -⟩ := exists_split h
  have hn : s.head.line.number = pre.length + 1 :=
    d.number_of_kindedLine_at (by rw [hls]; simp)
  rw [habove, hn, Nat.add_sub_cancel]
  cases hp : pre.length with
  | zero => simp [List.length_eq_zero_iff.mp hp, line?]
  | succ n =>
    rw [← kindedLines_getElem?, hls, List.getElem?_append_left (by omega), List.getLast?_eq_getElem?,
      hp, Nat.add_sub_cancel]

theorem below_eq_line? (h : d.sections[i]? = some s) :
    s.body.head?.or d.delimiterLines[i + 1]? =
      (d.line? (s.head.line.number + 1)).map .ofLine := by
  obtain ⟨pre, post, hls, -, -, hpost⟩ := exists_split h
  have hn : s.head.line.number = pre.length + 1 :=
    d.number_of_kindedLine_at (by rw [hls]; simp)
  have hat : d.kindedLines[pre.length + 1]? = (s.body ++ post)[0]? := by
    rw [hls, List.getElem?_append_right (by omega), Nat.add_sub_cancel_left,
      List.getElem?_cons_succ]
  rw [← kindedLines_getElem?, hn, hat, ← hpost, ← List.head?_append, List.head?_eq_getElem?]

end Document

end MetaBlocks
