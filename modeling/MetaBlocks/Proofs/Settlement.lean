import Mathlib.Data.List.Nodup
import Mathlib.Data.List.Pairwise
import MetaBlocks.Proofs.Pairing

/-!
Settlements: what is decided about a run of sections before any rule is asked. Blocks are paired and
rules are passed over by looking at content alone; at most one section stays pending, the last one,
and the rules only say what becomes of it. A settlement can be resumed, so the sections of a longer
document are settled by going on from what a shorter one left.
-/

set_option autoImplicit false
set_option relaxedAutoImplicit false

namespace MetaBlocks

/-- The decisions about a run of sections that no rule can change. -/
structure Settlement where
  /-- Sections that open a block, each with the line that closes it. -/
  pairs : List (Section × KindedLine)
  /-- Sections without content that another delimiter follows. -/
  passed : List Section
  /-- The last section, unless its head closes a block. -/
  pending : Option Section

namespace Settlement

variable (r : DetectionRules)

/-- The first settlement, then one that takes over what it left pending. -/
def followedBy (x y : Settlement) : Settlement :=
  ⟨x.pairs ++ y.pairs, x.passed ++ y.passed, y.pending⟩

def blocks (x : Settlement) : List Block := x.pairs.map fun p => .ofSection p.1 p.2

/-- The detection once the rules have told whether the pending section is a horizontal rule. -/
def detection (x : Settlement) : Detection where
  blocks := x.blocks
  orphans := (x.pending.filter fun s => !r.isIsolated s none).toList.map (·.head.asDelimiter)
  rules := (x.passed ++ (x.pending.filter fun s => r.isIsolated s none).toList).map
    (·.head.asDelimiter)

variable {r} {x : Settlement} {q : Section}

theorem detection_of_none (hq : x.pending = none) :
    x.detection r = ⟨x.blocks, [], x.passed.map (·.head.asDelimiter)⟩ := by
  simp [detection, hq]

theorem detection_of_isolated (hq : x.pending = some q) (h : r.isIsolated q none = true) :
    x.detection r = ⟨x.blocks, [], (x.passed ++ [q]).map (·.head.asDelimiter)⟩ := by
  simp [detection, hq, Option.filter, h]

theorem detection_of_not_isolated (hq : x.pending = some q) (h : ¬r.isIsolated q none = true) :
    x.detection r =
      ⟨x.blocks, [q.head.asDelimiter], x.passed.map (·.head.asDelimiter)⟩ := by
  simp [detection, hq, Option.filter, h]

variable (r)

theorem blocks_followedBy (x y : Settlement) : (x.followedBy y).blocks = x.blocks ++ y.blocks :=
  List.map_append

theorem rules_followedBy (x y : Settlement) :
    ((x.followedBy y).detection r).rules =
      x.passed.map (·.head.asDelimiter) ++ (y.detection r).rules := by
  simp only [detection, followedBy, List.append_assoc, List.map_append]

theorem orphans_followedBy (x y : Settlement) :
    ((x.followedBy y).detection r).orphans = (y.detection r).orphans := rfl

end Settlement

namespace Section

def settle : List Section → Settlement
  | [] => ⟨[], [], none⟩
  | [s] => ⟨[], [], some s⟩
  | s :: t :: rest =>
    if s.qualifies then .followedBy ⟨[(s, t.head)], [], none⟩ (settle rest)
    else .followedBy ⟨[], [s], none⟩ (settle (t :: rest))

theorem settle_pair {s t : Section} (content : s.qualifies = true) (rest : List Section) :
    settle (s :: t :: rest) = .followedBy ⟨[(s, t.head)], [], none⟩ (settle rest) := by
  rw [settle, if_pos content]

theorem settle_pass {s t : Section} (content : ¬s.qualifies = true) (rest : List Section) :
    settle (s :: t :: rest) = .followedBy ⟨[], [s], none⟩ (settle (t :: rest)) := by
  rw [settle, if_neg content]

/-- The findings are the settlement with the rules applied to the pending section. -/
theorem ofFindings_findings (r : DetectionRules) (ss : List Section) :
    Detection.ofFindings (findings r ss) = (settle ss).detection r := by
  fun_induction findings r ss with
  | case1 => rfl
  | case2 s isolated =>
    rw [Settlement.detection_of_isolated rfl isolated]
    rfl
  | case3 s isolated =>
    rw [Settlement.detection_of_not_isolated rfl isolated]
    rfl
  | case4 s t rest content ih =>
    have hcons (b : Block) (fs : List Finding) : Detection.ofFindings (.block b :: fs) =
        { Detection.ofFindings fs with blocks := b :: (Detection.ofFindings fs).blocks } := rfl
    rw [hcons, ih, settle_pair content]
    rfl
  | case5 s t rest content ih =>
    have hcons (e : Delimiter) (isolated : Bool) (fs : List Finding) :
        Detection.ofFindings (.rule e isolated :: fs) =
          { Detection.ofFindings fs with rules := e :: (Detection.ofFindings fs).rules } := rfl
    rw [hcons, ih, settle_pass content]
    rfl

theorem settle_append (ss more : List Section) :
    settle (ss ++ more) =
      (settle ss).followedBy (settle ((settle ss).pending.toList ++ more)) := by
  fun_induction settle ss with
  | case1 => simp [Settlement.followedBy]
  | case2 s => simp [Settlement.followedBy]
  | case3 s t rest content ih =>
    rw [List.cons_append, List.cons_append, settle_pair content, ih]
    simp [Settlement.followedBy]
  | case4 s t rest content ih =>
    rw [List.cons_append, List.cons_append, settle_pass content, ← List.cons_append, ih]
    simp [Settlement.followedBy]

private theorem getLast?_of_pending {ss : List Section} {s : Section}
    (h : (settle ss).pending = some s) : ss.getLast? = some s := by
  fun_induction settle ss with
  | case1 => cases h
  | case2 q => exact h
  | case3 q t rest content ih =>
    rw [List.getLast?_cons_cons, List.getLast?_cons, ih h, Option.getD_some]
  | case4 q t rest content ih => rw [List.getLast?_cons_cons, ih h]

def extend (tail : List KindedLine) (s : Section) : Section := { s with body := s.body ++ tail }

/-- The last section takes in the lines that come before the next delimiter. -/
def extendLast (tail : List KindedLine) : List Section → List Section
  | [] => []
  | [s] => [s.extend tail]
  | s :: t :: rest => s :: extendLast tail (t :: rest)

theorem ofLines_eq_nil_iff {above : Option KindedLine} {ls : List KindedLine} :
    ofLines above ls = [] ↔ ∀ l ∈ ls, l.isDelimiter = false := by
  rw [← List.map_eq_nil_iff (f := head), map_head_ofLines, List.filter_eq_nil_iff]
  simp only [Bool.not_eq_true]

theorem ofLines_append (above : Option KindedLine) (ls ms : List KindedLine) :
    ofLines above (ls ++ ms) =
      extendLast (ms.takeWhile fun m => !m.isDelimiter) (ofLines above ls) ++
        ofLines (ls.getLast?.or above) ms := by
  induction ls generalizing above with
  | nil => rfl
  | cons l ls ih =>
    have hlast : (l :: ls).getLast?.or above = ls.getLast?.or (some l) := by
      rw [List.getLast?_cons]
      cases ls.getLast? <;> rfl
    rw [List.cons_append, hlast]
    by_cases hl : l.isDelimiter
    · rw [ofLines, if_pos hl, ofLines, if_pos hl, ih]
      -- The new head takes in lines of `ms` only if no other delimiter stands before them.
      cases hls : ofLines (some l) ls with
      | nil =>
        have hnone := ofLines_eq_nil_iff.mp hls
        have hbody : ∀ m ∈ ls, (!m.isDelimiter) = true := by
          intro m hm
          simp [hnone m hm]
        rw [List.takeWhile_append_of_pos hbody, List.takeWhile_eq_self_iff.mpr hbody]
        rfl
      | cons t rest =>
        have hsome : ¬(ls.takeWhile fun m => !m.isDelimiter).length = ls.length := by
          intro hlen
          have hall := (List.takeWhile_prefix (l := ls) fun m => !m.isDelimiter).eq_of_length hlen
          have hbody := List.takeWhile_eq_self_iff.mp hall
          have hnil : ofLines (some l) ls = [] := by
            refine ofLines_eq_nil_iff.mpr ?_
            intro m hm
            simpa using hbody m hm
          rw [hls] at hnil
          cases hnil
        rw [List.takeWhile_append, if_neg hsome]
        rfl
    · rw [ofLines, if_neg hl, ofLines, if_neg hl, ih]

private theorem settle_extendLast (tail : List KindedLine) (ss : List Section) :
    settle (extendLast tail ss) =
      ⟨(settle ss).pairs, (settle ss).passed, (settle ss).pending.map (extend tail)⟩ := by
  fun_induction settle ss with
  | case1 => rfl
  | case2 s => rfl
  | case3 s t rest content ih =>
    cases rest with
    | nil =>
      rw [extendLast, extendLast, settle_pair content]
      rfl
    | cons u us =>
      rw [extendLast, extendLast, settle_pair content, ih]
      rfl
  | case4 s t rest content ih =>
    cases rest with
    | nil =>
      rw [extendLast, extendLast, settle_pass content]
      rfl
    | cons u us =>
      rw [extendLast] at ih
      rw [extendLast, extendLast, settle_pass content, ih]
      rfl

/-- Lines that follow do not change what is settled; they go on from the pending section. -/
theorem settle_ofLines_append (above : Option KindedLine) (ls ms : List KindedLine) :
    settle (ofLines above (ls ++ ms)) =
      (settle (ofLines above ls)).followedBy (settle
        (((settle (ofLines above ls)).pending.map
            (extend (ms.takeWhile fun m => !m.isDelimiter))).toList ++
          ofLines (ls.getLast?.or above) ms)) := by
  rw [ofLines_append, settle_append, settle_extendLast]
  rfl

theorem settle_ofLines_append_of_none {above : Option KindedLine} {ls : List KindedLine}
    (h : (settle (ofLines above ls)).pending = none) (ms : List KindedLine) :
    settle (ofLines above (ls ++ ms)) =
      (settle (ofLines above ls)).followedBy (settle (ofLines (ls.getLast?.or above) ms)) := by
  rw [settle_ofLines_append, h]
  rfl

end Section

inductive Role where
  | opening
  | closing
  | rule
  | orphan
  deriving DecidableEq, Repr

namespace Role

def all : List Role := [opening, closing, rule, orphan]

private theorem mem_all (a : Role) : a ∈ all := by
  cases a <;> decide

end Role

namespace Detection

variable (r : DetectionRules) {d : Document}

theorem ofDocument_eq (d : Document) : ofDocument r d = (Section.settle d.sections).detection r :=
  Section.ofFindings_findings r d.sections

def inRole (x : Detection) : Role → List Delimiter
  | .opening => x.blocks.map (·.opening)
  | .closing => x.blocks.map (·.closing)
  | .rule => x.rules
  | .orphan => x.orphans

private theorem delimiters_eq_flatMap (x : Detection) :
    x.delimiters = Role.all.flatMap x.inRole := by
  simp [delimiters, Role.all, inRole]

theorem mem_delimiters_iff {x : Detection} {l : Delimiter} :
    l ∈ x.delimiters ↔ ∃ a, l ∈ x.inRole a := by
  rw [delimiters_eq_flatMap, List.mem_flatMap]
  constructor
  · rintro ⟨a, -, ha⟩
    exact ⟨a, ha⟩
  · rintro ⟨a, ha⟩
    exact ⟨a, Role.mem_all a, ha⟩

theorem role_unique {l : Delimiter} {a b : Role} (ha : l ∈ (ofDocument r d).inRole a)
    (hb : l ∈ (ofDocument r d).inRole b) : a = b := by
  have hnodup := nodup_delimiters r d
  rw [delimiters_eq_flatMap, List.nodup_flatMap] at hnodup
  have hsymm : Std.Symm (Function.onFun List.Disjoint (ofDocument r d).inRole) :=
    ⟨fun _ _ h _ hb ha => h ha hb⟩
  by_contra hne
  exact hnodup.2.forall (Role.mem_all a) (Role.mem_all b) hne ha hb

theorem getLast?_delimiterLines_of_pending {q : Section}
    (h : (Section.settle d.sections).pending = some q) :
    d.delimiterLines.getLast? = some q.head := by
  rw [← d.map_head_sections, List.getLast?_map, Section.getLast?_of_pending h, Option.map_some]

end Detection

end MetaBlocks
