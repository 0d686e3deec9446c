import Mathlib.Data.List.Forall2
import MetaBlocks.Detection

/-!
Detection on corresponding lines. Suppose that the lines of two documents are related one to one, and
that related lines agree on being a delimiter, on qualifying and on being blank. Then detection goes
the same way on both: the sections, the findings and the three lists of a detection are related part
by part, whatever the relation says about the lines beyond that.
-/

set_option autoImplicit false
set_option relaxedAutoImplicit false

namespace MetaBlocks

variable {R : KindedLine → KindedLine → Prop}

/-- Related lines are alike in what detection looks at. -/
structure KindedLine.Alike (R : KindedLine → KindedLine → Prop) : Prop where
  isDelimiter {a b : KindedLine} : R a b → a.isDelimiter = b.isDelimiter
  qualifies {a b : KindedLine} : R a b → a.qualifies = b.qualifies
  isBlank {a b : KindedLine} : R a b → a.isBlank = b.isBlank

structure Section.Corresponds (R : KindedLine → KindedLine → Prop) (s t : Section) : Prop where
  above : Option.Rel R s.above t.above
  head : R s.head t.head
  body : List.Forall₂ R s.body t.body

def Delimiter.Corresponds (R : KindedLine → KindedLine → Prop) (e e' : Delimiter) : Prop :=
  ∃ a b, R a b ∧ e = a.asDelimiter ∧ e' = b.asDelimiter

def Block.Corresponds (R : KindedLine → KindedLine → Prop) (b b' : Block) : Prop :=
  ∃ s t x y, s.Corresponds R t ∧ R x y ∧ b = ofSection s x ∧ b' = ofSection t y

inductive Finding.Corresponds (R : KindedLine → KindedLine → Prop) : Finding → Finding → Prop
  | rule {e e' : Delimiter} (h : e.Corresponds R e') (isolated : Bool) :
      Corresponds R (.rule e isolated) (.rule e' isolated)
  | block {b b' : Block} (h : b.Corresponds R b') : Corresponds R (.block b) (.block b')
  | orphan {e e' : Delimiter} (h : e.Corresponds R e') : Corresponds R (.orphan e) (.orphan e')

structure Detection.Corresponds (R : KindedLine → KindedLine → Prop) (x y : Detection) : Prop where
  blocks : List.Forall₂ (Block.Corresponds R) x.blocks y.blocks
  orphans : List.Forall₂ (Delimiter.Corresponds R) x.orphans y.orphans
  rules : List.Forall₂ (Delimiter.Corresponds R) x.rules y.rules

theorem map_eq_map_of_forall₂ {α β γ : Type} {R : α → β → Prop} {f : α → γ} {g : β → γ}
    (hfg : ∀ a b, R a b → f a = g b) {xs : List α} {ys : List β} (h : List.Forall₂ R xs ys) :
    xs.map f = ys.map g := by
  rw [← List.forall₂_eq_eq_eq, List.forall₂_map_left_iff, List.forall₂_map_right_iff]
  exact h.imp hfg

theorem filterMap_eq_filterMap_of_forall₂ {α β γ : Type} {R : α → β → Prop} {f : α → Option γ}
    {g : β → Option γ} (hfg : ∀ a b, R a b → f a = g b) {xs : List α} {ys : List β}
    (h : List.Forall₂ R xs ys) : xs.filterMap f = ys.filterMap g := by
  have hmap := congrArg (List.filterMap id) (map_eq_map_of_forall₂ hfg h)
  rwa [List.filterMap_map, List.filterMap_map, Function.id_comp, Function.id_comp] at hmap

namespace Section

private theorem forall₂_takeWhile (hR : ∀ {a b}, R a b → a.isDelimiter = b.isDelimiter)
    {ls ms : List KindedLine} (h : List.Forall₂ R ls ms) :
    List.Forall₂ R (ls.takeWhile fun m => !m.isDelimiter)
      (ms.takeWhile fun m => !m.isDelimiter) := by
  induction h with
  | nil => exact .nil
  | @cons a b ls ms hab _ ih =>
    simp only [List.takeWhile_cons, hR hab]
    split
    · exact .cons hab ih
    · exact .nil

theorem forall₂_ofLines (hR : ∀ {a b}, R a b → a.isDelimiter = b.isDelimiter)
    {ls ms : List KindedLine} (h : List.Forall₂ R ls ms) {above above' : Option KindedLine}
    (habove : Option.Rel R above above') :
    List.Forall₂ (Corresponds R) (ofLines above ls) (ofLines above' ms) := by
  induction h generalizing above above' with
  | nil => exact .nil
  | @cons a b ls ms hab hrest ih =>
    simp only [ofLines, hR hab]
    split
    · exact .cons ⟨habove, hab, forall₂_takeWhile hR hrest⟩ (ih (.some hab))
    · exact ih (.some hab)

theorem Corresponds.qualifies_eq (hR : ∀ {a b}, R a b → a.qualifies = b.qualifies) {s t : Section}
    (h : s.Corresponds R t) : s.qualifies = t.qualifies := by
  have hbody := h.body
  rw [qualifies, qualifies]
  generalize s.body = ls, t.body = ms at hbody ⊢
  induction hbody with
  | nil => rfl
  | cons hab _ ih => rw [List.any_cons, List.any_cons, hR hab, ih]

private theorem Corresponds.delimiter {s t : Section} (h : s.Corresponds R t) :
    s.head.asDelimiter.Corresponds R t.head.asDelimiter := ⟨s.head, t.head, h.head, rfl, rfl⟩

end Section

private theorem DetectionRules.blankNeighbor_eq (hR : KindedLine.Alike R) (r : DetectionRules)
    {a b : Option KindedLine} (h : Option.Rel R a b) : r.blankNeighbor a = r.blankNeighbor b := by
  cases h with
  | none => rfl
  | some hab => exact hR.isBlank hab

private theorem DetectionRules.isIsolated_eq (hR : KindedLine.Alike R) (r : DetectionRules)
    {s t : Section} (h : s.Corresponds R t) {next next' : Option Section}
    (hnext : Option.Rel (Section.Corresponds R) next next') :
    r.isIsolated s next = r.isIsolated t next' := by
  have hbelow : Option.Rel R (s.body.head?.or (next.map (·.head)))
      (t.body.head?.or (next'.map (·.head))) := by
    have hbody := h.body
    generalize s.body = ls, t.body = ms at hbody ⊢
    cases hbody with
    | nil =>
      cases hnext with
      | none => exact .none
      | some hst => exact .some hst.head
    | cons hab _ => exact .some hab
  rw [isIsolated, isIsolated, h.qualifies_eq hR.qualifies, blankAround, blankAround,
    r.blankNeighbor_eq hR h.above, r.blankNeighbor_eq hR hbelow]

/-- The decisions follow the recursion over sections, which takes one section or two at a time. -/
theorem Section.forall₂_findings (hR : KindedLine.Alike R) (r : DetectionRules)
    {ss ts : List Section} (h : List.Forall₂ (Section.Corresponds R) ss ts) :
    List.Forall₂ (Finding.Corresponds R) (findings r ss) (findings r ts) := by
  fun_induction findings r ss generalizing ts with
  | case1 =>
    cases h
    exact .nil
  | case2 s hisolated =>
    obtain ⟨t, _, hst, hnil, rfl⟩ := List.forall₂_cons_left_iff.mp h
    cases hnil
    rw [r.isIsolated_eq hR hst .none] at hisolated
    rw [findings, if_pos hisolated]
    exact .cons (.rule hst.delimiter true) .nil
  | case3 s hisolated =>
    obtain ⟨t, _, hst, hnil, rfl⟩ := List.forall₂_cons_left_iff.mp h
    cases hnil
    rw [r.isIsolated_eq hR hst .none] at hisolated
    rw [findings, if_neg hisolated]
    exact .cons (.orphan hst.delimiter) .nil
  | case4 s s' rest hqualifies ih =>
    obtain ⟨t, _, hst, htail, rfl⟩ := List.forall₂_cons_left_iff.mp h
    obtain ⟨t', ts, hst', hrest, rfl⟩ := List.forall₂_cons_left_iff.mp htail
    rw [hst.qualifies_eq hR.qualifies] at hqualifies
    rw [findings, if_pos hqualifies]
    exact .cons (.block ⟨s, t, s'.head, t'.head, hst, hst'.head, rfl, rfl⟩) (ih hrest)
  | case5 s s' rest hqualifies ih =>
    obtain ⟨t, _, hst, htail, rfl⟩ := List.forall₂_cons_left_iff.mp h
    obtain ⟨t', ts, hst', hrest, rfl⟩ := List.forall₂_cons_left_iff.mp htail
    rw [hst.qualifies_eq hR.qualifies] at hqualifies
    rw [findings, if_neg hqualifies, r.isIsolated_eq hR hst (.some hst')]
    exact .cons (.rule hst.delimiter _) (ih htail)

namespace Detection

theorem corresponds_ofFindings {fs gs : List Finding}
    (h : List.Forall₂ (Finding.Corresponds R) fs gs) :
    (ofFindings fs).Corresponds R (ofFindings gs) where
  blocks := List.rel_filterMap (fun _ _ hfg => by
    cases hfg with
    | block hb => exact .some hb
    | rule | orphan => exact .none) h
  orphans := List.rel_filterMap (fun _ _ hfg => by
    cases hfg with
    | orphan he => exact .some he
    | rule | block => exact .none) h
  rules := List.rel_filterMap (fun _ _ hfg => by
    cases hfg with
    | rule he => exact .some he
    | block | orphan => exact .none) h

theorem corresponds_ofDocument (hR : KindedLine.Alike R) (r : DetectionRules) {d d' : Document}
    (h : List.Forall₂ R d.kindedLines d'.kindedLines) :
    (ofDocument r d).Corresponds R (ofDocument r d') :=
  corresponds_ofFindings
    (Section.forall₂_findings hR r (Section.forall₂_ofLines hR.isDelimiter h .none))

end Detection

end MetaBlocks
