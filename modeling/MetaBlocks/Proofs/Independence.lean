import MetaBlocks.Proofs.Correspondence
import MetaBlocks.Proofs.Settlement

/-!
What the structure of a detection depends on. Two documents of the same shape, line by line a
delimiter in both or in none and content in both or in none, are settled alike. So they have the
same blocks under all rules, and the rules and the rest of the text decide about one line only:
whether the last delimiter, when no block uses it, is a horizontal rule or the orphan.
-/

set_option autoImplicit false
set_option relaxedAutoImplicit false

namespace MetaBlocks

variable {R : KindedLine → KindedLine → Prop}

structure Settlement.Corresponds (R : KindedLine → KindedLine → Prop) (x y : Settlement) :
    Prop where
  pairs : List.Forall₂ (fun p q => p.1.Corresponds R q.1 ∧ R p.2 q.2) x.pairs y.pairs
  passed : List.Forall₂ (Section.Corresponds R) x.passed y.passed
  pending : Option.Rel (Section.Corresponds R) x.pending y.pending

private theorem Settlement.Corresponds.followedBy {x x' y y' : Settlement} (hx : x.Corresponds R x')
    (hy : y.Corresponds R y') : (x.followedBy y).Corresponds R (x'.followedBy y') :=
  ⟨List.rel_append hx.pairs hy.pairs, List.rel_append hx.passed hy.passed, hy.pending⟩

/-- One step of settling looks at content only, so two runs over related sections stay together. -/
theorem Section.corresponds_settle (hR : ∀ {a b}, R a b → a.qualifies = b.qualifies)
    {ss ts : List Section} (h : List.Forall₂ (Section.Corresponds R) ss ts) :
    (settle ss).Corresponds R (settle ts) := by
  fun_induction settle ss generalizing ts with
  | case1 =>
    cases h
    exact ⟨.nil, .nil, .none⟩
  | case2 s =>
    obtain ⟨t, _, hst, hnil, rfl⟩ := List.forall₂_cons_left_iff.mp h
    cases hnil
    exact ⟨.nil, .nil, .some hst⟩
  | case3 s s' rest content ih =>
    obtain ⟨t, _, hst, htail, rfl⟩ := List.forall₂_cons_left_iff.mp h
    obtain ⟨t', ts, hst', hrest, rfl⟩ := List.forall₂_cons_left_iff.mp htail
    rw [hst.qualifies_eq hR] at content
    rw [settle_pair content]
    have hpair : Settlement.Corresponds R ⟨[(s, s'.head)], [], none⟩ ⟨[(t, t'.head)], [], none⟩ :=
      ⟨.cons ⟨hst, hst'.head⟩ .nil, .nil, .none⟩
    exact hpair.followedBy (ih hrest)
  | case4 s s' rest content ih =>
    obtain ⟨t, _, hst, htail, rfl⟩ := List.forall₂_cons_left_iff.mp h
    obtain ⟨t', ts, hst', hrest, rfl⟩ := List.forall₂_cons_left_iff.mp htail
    rw [hst.qualifies_eq hR] at content
    rw [settle_pass content]
    have hpass : Settlement.Corresponds R ⟨[], [s], none⟩ ⟨[], [t], none⟩ :=
      ⟨.nil, .cons hst .nil, .none⟩
    exact hpass.followedBy (ih htail)

namespace Settlement

/-- The lines of each role that are settled before the rules are asked. -/
def linesInRole (x : Settlement) : Role → List Nat
  | .opening => x.pairs.map (·.1.head.line.number)
  | .closing => x.pairs.map (·.2.line.number)
  | .rule => x.passed.map (·.head.line.number)
  | .orphan => []

private theorem mem_inRole_iff (r : DetectionRules) {x : Settlement} {n : Nat}
    (h : x.pending.map (·.head.line.number) ≠ some n) (a : Role) :
    n ∈ ((x.detection r).inRole a).map (·.line) ↔ n ∈ x.linesInRole a := by
  have hpending (p : Section → Bool) :
      n ∉ ((x.pending.filter p).toList.map (·.head.asDelimiter)).map (·.line) := by
    intro hn
    rw [List.map_map, List.mem_map] at hn
    obtain ⟨q, hq, rfl⟩ := hn
    rw [Option.mem_toList, Option.filter_eq_some_iff] at hq
    rw [hq.1] at h
    exact h rfl
  cases a with
  | opening =>
    rw [Detection.inRole, detection, blocks, List.map_map, List.map_map]
    rfl
  | closing =>
    rw [Detection.inRole, detection, blocks, List.map_map, List.map_map]
    rfl
  | rule =>
    simp only [Detection.inRole, detection, List.map_append, List.mem_append, hpending, or_false]
    rw [List.map_map]
    rfl
  | orphan => simp only [Detection.inRole, detection, linesInRole, hpending, List.not_mem_nil]

private theorem map_line_rules_append_orphans (r : DetectionRules) (x : Settlement) :
    ((x.detection r).rules ++ (x.detection r).orphans).map (·.line) =
      (x.passed ++ x.pending.toList).map (·.head.line.number) := by
  cases hq : x.pending with
  | none => simp [detection_of_none hq, KindedLine.asDelimiter]
  | some q =>
    by_cases hisolated : r.isIsolated q none = true
    · simp [detection_of_isolated hq hisolated, KindedLine.asDelimiter]
    · simp [detection_of_not_isolated hq hisolated, KindedLine.asDelimiter]

end Settlement

/-- The lines have one number, and agree on being a delimiter and on being content. -/
structure KindedLine.SameShape (a b : KindedLine) : Prop where
  number : a.line.number = b.line.number
  isDelimiter : a.isDelimiter = b.isDelimiter
  qualifies : a.qualifies = b.qualifies

namespace Document

variable {d e : Document}

def shape (d : Document) : List (Bool × Bool) :=
  d.kindedLines.map fun l => (l.isDelimiter, l.qualifies)

private theorem forall₂_kindedLines (h : d.shape = e.shape) :
    List.Forall₂ KindedLine.SameShape d.kindedLines e.kindedLines := by
  have hlength : d.kindedLines.length = e.kindedLines.length := by
    simpa only [shape, List.length_map] using congrArg List.length h
  rw [List.forall₂_iff_get]
  refine ⟨hlength, ?_⟩
  intro i hi hi'
  have hk := List.getElem?_eq_getElem hi
  have hm := List.getElem?_eq_getElem hi'
  have hnumber := (d.number_of_kindedLine_at hk).trans (e.number_of_kindedLine_at hm).symm
  have hshape := congrArg (fun shapes => shapes[i]?) h
  simp only [shape, List.getElem?_map, hk, hm, Option.map_some, Option.some.injEq,
    Prod.mk.injEq] at hshape
  exact ⟨hnumber, hshape.1, hshape.2⟩

private theorem forall₂_sections (h : d.shape = e.shape) :
    List.Forall₂ (Section.Corresponds KindedLine.SameShape) d.sections e.sections :=
  Section.forall₂_ofLines KindedLine.SameShape.isDelimiter (forall₂_kindedLines h) .none

private theorem map_number_delimiterLines (h : d.shape = e.shape) :
    d.delimiterLines.map (·.line.number) = e.delimiterLines.map (·.line.number) := by
  rw [← d.map_head_sections, ← e.map_head_sections, List.map_map, List.map_map]
  exact map_eq_map_of_forall₂ (fun _ _ hst => hst.head.number) (forall₂_sections h)

private theorem corresponds_settle_sections (h : d.shape = e.shape) :
    (Section.settle d.sections).Corresponds KindedLine.SameShape (Section.settle e.sections) :=
  Section.corresponds_settle KindedLine.SameShape.qualifies (forall₂_sections h)

end Document

namespace Settlement.Corresponds

variable {x y : Settlement} (h : x.Corresponds KindedLine.SameShape y)

include h

private theorem linesInRole_eq (a : Role) : x.linesInRole a = y.linesInRole a := by
  cases a with
  | opening => exact map_eq_map_of_forall₂ (fun _ _ hpq => hpq.1.head.number) h.pairs
  | closing => exact map_eq_map_of_forall₂ (fun _ _ hpq => hpq.2.number) h.pairs
  | rule => exact map_eq_map_of_forall₂ (fun _ _ hst => hst.head.number) h.passed
  | orphan => rfl

private theorem map_pairs_eq :
    x.pairs.map (fun p => (p.1.head.line.number, p.2.line.number)) =
      y.pairs.map (fun p => (p.1.head.line.number, p.2.line.number)) := by
  refine map_eq_map_of_forall₂ (fun p q hpq => ?_) h.pairs
  rw [hpq.1.head.number, hpq.2.number]

private theorem map_number_pending :
    x.pending.map (·.head.line.number) = y.pending.map (·.head.line.number) := by
  have hpending := h.pending
  generalize x.pending = q, y.pending = q' at hpending ⊢
  cases hpending with
  | none => rfl
  | some hst => rw [Option.map_some, Option.map_some, hst.head.number]

private theorem map_unpaired_eq :
    (x.passed ++ x.pending.toList).map (·.head.line.number) =
      (y.passed ++ y.pending.toList).map (·.head.line.number) := by
  have hpassed := h.linesInRole_eq .rule
  have hpending := congrArg Option.toList h.map_number_pending
  simp only [linesInRole] at hpassed
  simp only [Option.toList_map] at hpending
  rw [List.map_append, List.map_append, hpassed, hpending]

end Settlement.Corresponds

namespace Detection

def places (x : Detection) : List (Nat × Nat) :=
  x.blocks.map fun b => (b.opening.line, b.closing.line)

private theorem places_detection (r : DetectionRules) (x : Settlement) :
    (x.detection r).places = x.pairs.map fun p => (p.1.head.line.number, p.2.line.number) := by
  rw [places, Settlement.detection, Settlement.blocks, List.map_map]
  rfl

private theorem map_number_pending_ne {d : Document} {n : Nat}
    (h : d.delimiterLines.getLast?.map (·.line.number) ≠ some n) :
    (Section.settle d.sections).pending.map (·.head.line.number) ≠ some n := by
  intro hn
  obtain ⟨q, hq, rfl⟩ := Option.map_eq_some_iff.mp hn
  rw [getLast?_delimiterLines_of_pending hq] at h
  exact h rfl

/-- The structure of a detection depends on nothing but the shape of the document: documents of one
shape, under any two rules, have the same blocks and the same delimiters outside of blocks, and only
their last delimiter line can have another role. -/
theorem structure_independent {d e : Document} (h : d.shape = e.shape) (r r' : DetectionRules) :
    (ofDocument r d).places = (ofDocument r' e).places ∧
      ((ofDocument r d).rules ++ (ofDocument r d).orphans).map (·.line) =
        ((ofDocument r' e).rules ++ (ofDocument r' e).orphans).map (·.line) ∧
      d.delimiterLines.getLast?.map (·.line.number) =
        e.delimiterLines.getLast?.map (·.line.number) ∧
      ∀ n, d.delimiterLines.getLast?.map (·.line.number) ≠ some n → ∀ a,
        (n ∈ ((ofDocument r d).inRole a).map (·.line) ↔
          n ∈ ((ofDocument r' e).inRole a).map (·.line)) := by
  have hsettled := Document.corresponds_settle_sections h
  rw [ofDocument_eq, ofDocument_eq]
  refine ⟨?_, ?_, ?_, ?_⟩
  · rw [places_detection, places_detection, hsettled.map_pairs_eq]
  · rw [Settlement.map_line_rules_append_orphans, Settlement.map_line_rules_append_orphans,
      hsettled.map_unpaired_eq]
  · rw [← List.getLast?_map, ← List.getLast?_map, Document.map_number_delimiterLines h]
  · intro n hn a
    have hpending := map_number_pending_ne hn
    have hpending' := hpending
    rw [hsettled.map_number_pending] at hpending'
    rw [Settlement.mem_inRole_iff r hpending, Settlement.mem_inRole_iff r' hpending',
      hsettled.linesInRole_eq]

/-- Other texts on the lines and other rules make an orphan of a horizontal rule. -/
theorem structure_independent_orphan :
    let d : Document := .ofText "---\nSCOPE: a\n---\n\n---\n".toList
    let e : Document := .ofText "----\nk: 1\r\n---  \nprose\n-----".toList
    let x := ofDocument { neighbors := .either } d
    let y := ofDocument {} e
    d.shape = e.shape ∧ 5 ∈ (x.inRole .rule).map (·.line) ∧ 5 ∈ (y.inRole .orphan).map (·.line) ∧
      x.places = y.places ∧
      (x.rules ++ x.orphans).map (·.line) = (y.rules ++ y.orphans).map (·.line) ∧
      d.delimiterLines.getLast?.map (·.line.number) =
        e.delimiterLines.getLast?.map (·.line.number) ∧
      ∀ n, d.delimiterLines.getLast?.map (·.line.number) ≠ some n → ∀ a,
        (n ∈ (x.inRole a).map (·.line) ↔ n ∈ (y.inRole a).map (·.line)) := by
  intro d e x y
  have hshape : d.shape = e.shape := by decide +kernel
  exact ⟨hshape, by decide +kernel, by decide +kernel,
    structure_independent hshape { neighbors := .either } {}⟩

end Detection

end MetaBlocks
