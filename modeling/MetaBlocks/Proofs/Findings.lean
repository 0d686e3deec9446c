import MetaBlocks.Detection

/-!
What the findings say about a list of sections. Every section meets a fate: it opens a block, closes
the one before it, is a rule, or ends the list as a rule or an orphan. The findings account for all
heads in order, and a detection only sorts them by kind.
-/

set_option autoImplicit false
set_option relaxedAutoImplicit false

namespace MetaBlocks

def Finding.delimiters : Finding → List Delimiter
  | rule d _ => [d]
  | block b => [b.opening, b.closing]
  | orphan d => [d]

namespace Section

/-- What can become of the section at an index of a list, given the findings for the list. -/
inductive Fate (r : DetectionRules) (ss : List Section) (fs : List Finding) (i : Nat)
    (s : Section) : Prop
  | opens (t : Section) (next : ss[i + 1]? = some t) (content : s.qualifies = true)
      (found : .block (.ofSection s t.head) ∈ fs)
  | closes (j : Nat) (p : Section) (index : i = j + 1) (before : ss[j]? = some p)
      (found : .block (.ofSection p s.head) ∈ fs)
  | rule (t : Section) (next : ss[i + 1]? = some t) (content : s.qualifies = false)
      (found : .rule s.head.asDelimiter (r.isIsolated s (some t)) ∈ fs)
  | lastRule (last : ss[i + 1]? = none) (isolated : r.isIsolated s none = true)
      (found : .rule s.head.asDelimiter true ∈ fs)
  | orphan (last : ss[i + 1]? = none) (isolated : r.isIsolated s none = false)
      (found : .orphan s.head.asDelimiter ∈ fs)

variable {r : DetectionRules}

private theorem Fate.append {ss : List Section} {fs : List Finding} {i : Nat} {s : Section}
    (h : Fate r ss fs i s) (pre : List Section) (gs : List Finding) :
    Fate r (pre ++ ss) (gs ++ fs) (pre.length + i) s := by
  have shift (k : Nat) : (pre ++ ss)[pre.length + k]? = ss[k]? := by
    rw [List.getElem?_append_right (by omega), Nat.add_sub_cancel_left]
  cases h with
  | opens t next content found =>
    exact .opens t ((shift (i + 1)).trans next) content (List.mem_append_right gs found)
  | closes j p index before found =>
    exact .closes (pre.length + j) p (by omega) ((shift j).trans before)
      (List.mem_append_right gs found)
  | rule t next content found =>
    exact .rule t ((shift (i + 1)).trans next) content (List.mem_append_right gs found)
  | lastRule last isolated found =>
    exact .lastRule ((shift (i + 1)).trans last) isolated (List.mem_append_right gs found)
  | orphan last isolated found =>
    exact .orphan ((shift (i + 1)).trans last) isolated (List.mem_append_right gs found)

theorem fate_of_getElem? {ss : List Section} {i : Nat} {s : Section} (h : ss[i]? = some s) :
    Fate r ss (findings r ss) i s := by
  fun_induction findings r ss generalizing i with
  | case1 => simp at h
  | case2 q isolated =>
    obtain ⟨rfl, rfl⟩ : i = 0 ∧ q = s := by simpa [List.getElem?_singleton] using h
    exact .lastRule rfl isolated List.mem_cons_self
  | case3 q isolated =>
    obtain ⟨rfl, rfl⟩ : i = 0 ∧ q = s := by simpa [List.getElem?_singleton] using h
    exact .orphan rfl (by simpa using isolated) List.mem_cons_self
  | case4 q t rest content ih =>
    -- The pair takes two sections at once, so the induction resumes two places on.
    match i, h with
    | 0, h =>
      obtain rfl : q = s := by simpa using h
      exact .opens t rfl content List.mem_cons_self
    | 1, h =>
      obtain rfl : t = s := by simpa using h
      exact .closes 0 q rfl rfl List.mem_cons_self
    | i + 2, h =>
      have hf := (ih (i := i) (by simpa using h)).append [q, t] [.block (.ofSection q t.head)]
      rwa [show [q, t].length + i = i + 2 from Nat.add_comm 2 i] at hf
  | case5 q t rest content ih =>
    match i, h with
    | 0, h =>
      obtain rfl : q = s := by simpa using h
      exact .rule t rfl (by simpa using content) List.mem_cons_self
    | i + 1, h =>
      have hf := (ih (i := i) (by simpa using h)).append [q]
        [.rule q.head.asDelimiter (r.isIsolated q (some t))]
      rwa [show [q].length + i = i + 1 from Nat.add_comm 1 i] at hf

theorem exists_of_block_mem {ss : List Section} {b : Block} (h : .block b ∈ findings r ss) :
    ∃ i s t, ss[i]? = some s ∧ ss[i + 1]? = some t ∧ s.qualifies = true ∧
      b = .ofSection s t.head := by
  fun_induction findings r ss with
  | case1 => simp at h
  | case2 => simp at h
  | case3 => simp at h
  | case4 q t rest content ih =>
    rcases List.mem_cons.mp h with h | h
    · exact ⟨0, q, t, rfl, rfl, content, Finding.block.inj h⟩
    · obtain ⟨i, s, t', hs, ht, hq, hb⟩ := ih h
      exact ⟨i + 2, s, t', hs, ht, hq, hb⟩
  | case5 q t rest content ih =>
    rcases List.mem_cons.mp h with h | h
    · cases h
    · obtain ⟨i, s, t', hs, ht, hq, hb⟩ := ih h
      exact ⟨i + 1, s, t', hs, ht, hq, hb⟩

theorem flatMap_delimiters_findings (r : DetectionRules) (ss : List Section) :
    (findings r ss).flatMap Finding.delimiters = ss.map fun s => s.head.asDelimiter := by
  fun_induction findings r ss with
  | case1 => rfl
  | case2 => rfl
  | case3 => rfl
  | case4 q t rest _ ih => simp [Finding.delimiters, Block.ofSection, ih]
  | case5 q t rest _ ih => simpa [Finding.delimiters] using ih

/-- Only the last section can be an orphan. -/
theorem orphans_findings (r : DetectionRules) (ss : List Section) :
    (findings r ss).filterMap Finding.orphan? = [] ∨
      ∃ s, ss.getLast? = some s ∧
        (findings r ss).filterMap Finding.orphan? = [s.head.asDelimiter] := by
  fun_induction findings r ss with
  | case1 => exact .inl rfl
  | case2 => exact .inl rfl
  | case3 q _ => exact .inr ⟨q, rfl, rfl⟩
  | case4 q t rest _ ih =>
    rcases ih with ih | ⟨s, hs, ih⟩
    · exact .inl ih
    · refine .inr ⟨s, ?_, ih⟩
      rw [List.getLast?_cons_cons, List.getLast?_cons, hs, Option.getD_some]
  | case5 q t rest _ ih =>
    rcases ih with ih | ⟨s, hs, ih⟩
    · exact .inl ih
    · exact .inr ⟨s, by rw [List.getLast?_cons_cons, hs], ih⟩

end Section

namespace Detection

def delimiters (x : Detection) : List Delimiter :=
  x.blocks.map (·.opening) ++ x.blocks.map (·.closing) ++ x.rules ++ x.orphans

theorem perm_delimiters_ofFindings (fs : List Finding) :
    (ofFindings fs).delimiters.Perm (fs.flatMap Finding.delimiters) := by
  induction fs with
  | nil => exact .nil
  | cons f fs ih =>
    simp only [delimiters, ofFindings, List.append_assoc] at ih
    simp only [delimiters, ofFindings, List.flatMap_cons, List.append_assoc]
    -- The new delimiters are carried past the lists that stand before theirs.
    cases f with
    | rule e isolated =>
      refine .trans ?_ (.cons e ih)
      simp only [List.filterMap_cons, Finding.block?, Finding.rule?, Finding.orphan?,
        List.cons_append]
      rw [← List.append_assoc, ← List.append_assoc]
      exact List.perm_middle
    | block b =>
      refine .trans (.cons b.opening ?_) (.cons b.opening (.cons b.closing ih))
      simp only [List.filterMap_cons, Finding.rule?, Finding.orphan?]
      exact List.perm_middle
    | orphan e =>
      refine .trans ?_ (.cons e ih)
      simp only [List.filterMap_cons, Finding.block?, Finding.rule?, Finding.orphan?,
        ← List.append_assoc]
      exact List.perm_middle

theorem sublist_delimiters {α : Type} (read : Finding → Option α) (part : α → List Delimiter)
    (within : ∀ f a, read f = some a → (part a).Sublist f.delimiters) (fs : List Finding) :
    ((fs.filterMap read).flatMap part).Sublist (fs.flatMap Finding.delimiters) := by
  induction fs with
  | nil => exact .slnil
  | cons f fs ih =>
    cases hf : read f with
    | none =>
      rw [List.filterMap_cons_none hf, List.flatMap_cons]
      exact ih.trans (List.sublist_append_right _ _)
    | some a =>
      rw [List.filterMap_cons_some hf, List.flatMap_cons, List.flatMap_cons]
      exact (within f a hf).append ih

theorem mem_blocks_iff {fs : List Finding} {b : Block} :
    b ∈ (ofFindings fs).blocks ↔ .block b ∈ fs := by
  rw [ofFindings, List.mem_filterMap]
  constructor
  · rintro ⟨f, hf, hb⟩
    cases f with
    | block c => rwa [← Option.some.inj hb]
    | rule _ _ => cases hb
    | orphan _ => cases hb
  · intro h
    exact ⟨_, h, rfl⟩

theorem mem_rules_of_mem {fs : List Finding} {e : Delimiter} {isolated : Bool}
    (h : .rule e isolated ∈ fs) : e ∈ (ofFindings fs).rules :=
  List.mem_filterMap.mpr ⟨_, h, rfl⟩

theorem mem_orphans_of_mem {fs : List Finding} {e : Delimiter} (h : .orphan e ∈ fs) :
    e ∈ (ofFindings fs).orphans :=
  List.mem_filterMap.mpr ⟨_, h, rfl⟩

end Detection

end MetaBlocks
