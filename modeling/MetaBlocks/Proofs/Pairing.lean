import MetaBlocks.Proofs.Findings
import MetaBlocks.Proofs.Kinds
import MetaBlocks.Proofs.Sections

/-!
How the delimiter lines of a document pair. No delimiter line is lost or used twice, and each is
told apart by a law over the delimiter lines and the content between them alone.
-/

set_option autoImplicit false
set_option relaxedAutoImplicit false

namespace MetaBlocks

variable (r : DetectionRules) (d : Document)

namespace Detection

private theorem flatMap_delimiters_sections :
    (Section.findings r d.sections).flatMap Finding.delimiters =
      d.delimiterLines.map KindedLine.asDelimiter := by
  rw [Section.flatMap_delimiters_findings, ← d.map_head_sections, List.map_map]
  rfl

theorem delimiters_sorted :
    (d.delimiterLines.map KindedLine.asDelimiter).Pairwise fun a b => a.line < b.line :=
  List.pairwise_map.mpr d.delimiterLines_sorted

theorem eq_of_line_eq {es : List Delimiter} (h : es.Pairwise fun a b => a.line < b.line)
    {a b : Delimiter} (ha : a ∈ es) (hb : b ∈ es) (he : a.line = b.line) : a = b :=
  List.Pairwise.forall_of_forall_of_flip (R := fun a b : Delimiter => a.line = b.line → a = b)
    (fun _ _ _ => rfl) (h.imp fun hlt heq => absurd heq (Nat.ne_of_lt hlt))
    (h.imp fun hlt heq => absurd heq.symm (Nat.ne_of_lt hlt)) ha hb he

theorem blocks_sorted :
    (∀ b ∈ (ofDocument r d).blocks, b.opening.line < b.closing.line) ∧
      (ofDocument r d).blocks.Pairwise fun a b => a.closing.line < b.opening.line := by
  have hsub := sublist_delimiters Finding.block? (fun b => [b.opening, b.closing])
    (fun f b hf => by cases f <;> simp_all [Finding.block?, Finding.delimiters])
    (Section.findings r d.sections)
  rw [flatMap_delimiters_sections] at hsub
  obtain ⟨hown, hnext⟩ := List.pairwise_flatMap.mp ((delimiters_sorted d).sublist hsub)
  refine ⟨fun b hb => ?_, hnext.imp fun h => ?_⟩
  · simpa using hown b hb
  · exact h _ (by simp) _ (by simp)

private theorem rules_sorted : (ofDocument r d).rules.Pairwise fun a b => a.line < b.line := by
  have hsub := sublist_delimiters Finding.rule? (fun e => [e])
    (fun f e hf => by cases f <;> simp_all [Finding.rule?, Finding.delimiters])
    (Section.findings r d.sections)
  rw [flatMap_delimiters_sections, List.flatMap_singleton'] at hsub
  exact (delimiters_sorted d).sublist hsub

theorem perm_delimiters_ofDocument :
    (ofDocument r d).delimiters.Perm (d.delimiterLines.map KindedLine.asDelimiter) := by
  rw [← flatMap_delimiters_sections r]
  exact perm_delimiters_ofFindings _

theorem orphans_ofDocument :
    (ofDocument r d).orphans = [] ∨
      ∃ o, d.delimiterLines.getLast? = some o ∧ (ofDocument r d).orphans = [o.asDelimiter] := by
  rcases Section.orphans_findings r d.sections with h | ⟨s, hs, h⟩
  · exact .inl h
  · refine .inr ⟨s.head, ?_, h⟩
    rw [← d.map_head_sections, List.getLast?_map, hs, Option.map_some]

/-- No delimiter is lost or used twice: put in line order, the openings, closings, rules and
orphans are the delimiter lines, each once, and only the last of these can be an orphan. -/
theorem delimiters_accounted :
    ((ofDocument r d).delimiters.mergeSort fun a b => a.line ≤ b.line) =
        d.delimiterLines.map KindedLine.asDelimiter ∧
      (d.delimiterLines.map fun l => l.line.number).Pairwise (· < ·) ∧
      (ofDocument r d).blocks.Pairwise (fun a b => a.opening.line < b.opening.line) ∧
      (ofDocument r d).rules.Pairwise (fun a b => a.line < b.line) ∧
      (ofDocument r d).orphans.Pairwise (fun a b => a.line < b.line) ∧
      (ofDocument r d).orphans.length ≤ 1 ∧
      ∀ e ∈ (ofDocument r d).orphans,
        (d.delimiterLines.map KindedLine.asDelimiter).getLast? = some e := by
  refine ⟨?_, ?_, ?_, rules_sorted r d, ?_⟩
  · have hsorted := delimiters_sorted d
    have hperm := (List.mergeSort_perm (ofDocument r d).delimiters
      (fun a b => decide (a.line ≤ b.line))).trans (perm_delimiters_ofDocument r d)
    have hle : ((ofDocument r d).delimiters.mergeSort fun a b => a.line ≤ b.line).Pairwise
        fun a b => decide (a.line ≤ b.line) = true :=
      List.pairwise_mergeSort
        (fun a b c hab hbc => by simp only [decide_eq_true_eq] at *; omega)
        (fun a b => by simp only [Bool.or_eq_true, decide_eq_true_eq]; omega) _
    refine hperm.eq_of_pairwise ?_ (hle.imp of_decide_eq_true) (hsorted.imp Nat.le_of_lt)
    intro a b ha hb hab hba
    exact eq_of_line_eq hsorted (hperm.mem_iff.mp ha) hb (Nat.le_antisymm hab hba)
  · exact List.pairwise_map.mpr d.delimiterLines_sorted
  · obtain ⟨hown, hnext⟩ := blocks_sorted r d
    refine hnext.imp_of_mem fun {a b} ha _ hab => ?_
    have ha := hown a ha
    omega
  · rcases orphans_ofDocument r d with h | ⟨o, ho, h⟩
    · simp [h]
    · simp [h, ho]

end Detection

namespace DetectionRules

def BlankAt (n : Nat) : Prop :=
  match d.line? n with
  | some l => l.isBlank = true
  | none => r.missingIsBlank = true

/-- The lines around a line, given by its number, are blank in the way the rules ask for. -/
def BlankNeighbors (n : Nat) : Prop :=
  match r.neighbors with
  | .both => r.BlankAt d (n - 1) ∧ r.BlankAt d (n + 1)
  | .either => r.BlankAt d (n - 1) ∨ r.BlankAt d (n + 1)

private theorem blankNeighbor_iff (n : Nat) :
    r.blankNeighbor ((d.line? n).map .ofLine) = true ↔ r.BlankAt d n := by
  unfold BlankAt
  cases d.line? n with
  | none => rfl
  | some l =>
    simp only [Option.map_some, blankNeighbor, KindedLine.isBlank, KindedLine.ofLine,
      decide_eq_true_eq]
    exact LineKind.ofLine_eq_blank_iff l

private theorem isIsolated_iff {i : Nat} {s : Section} (h : d.sections[i]? = some s) :
    r.isIsolated s d.sections[i + 1]? = true ↔
      ¬d.HasContent i ∧ r.BlankNeighbors d s.head.line.number := by
  rw [isIsolated, Bool.and_eq_true, Bool.not_eq_true', ← Document.qualifies_iff h,
    Bool.not_eq_true, and_comm, ← Document.delimiterLines_getElem?, Document.below_eq_line? h,
    Document.above_eq_line? h]
  refine and_congr_right fun _ => ?_
  unfold blankAround BlankNeighbors
  cases r.neighbors with
  | both => simp only [Bool.and_eq_true, blankNeighbor_iff]
  | either => simp only [Bool.or_eq_true, blankNeighbor_iff]

end DetectionRules

namespace Detection

def Pairs (x : Detection) (o c : KindedLine) : Prop :=
  ∃ b ∈ x.blocks, b.opening = o.asDelimiter ∧ b.closing = c.asDelimiter

def Uses (x : Detection) (o : KindedLine) : Prop :=
  ∃ b ∈ x.blocks, b.opening = o.asDelimiter ∨ b.closing = o.asDelimiter

/-- The law by which the delimiter lines of a document are told apart. -/
structure PairingLaw (x : Detection) : Prop where
  /-- A block is made by two consecutive delimiter lines with content between them. -/
  consecutive : ∀ b ∈ x.blocks, ∃ i o c, d.delimiterLines[i]? = some o ∧
    d.delimiterLines[i + 1]? = some c ∧ d.HasContent i ∧
    b.opening = o.asDelimiter ∧ b.closing = c.asDelimiter
  /-- Content makes a block unless its opening line was used up as a closing one. -/
  content : ∀ i o c, d.delimiterLines[i]? = some o → d.delimiterLines[i + 1]? = some c →
    d.HasContent i → x.Pairs o c ∨ ∃ j p, i = j + 1 ∧ d.delimiterLines[j]? = some p ∧ x.Pairs p o
  /-- No line closes one block and opens the next. -/
  exclusive : ∀ p o c, x.Pairs p o → ¬x.Pairs o c
  /-- Before the last delimiter line, one that no block uses is a rule without content. -/
  inner : ∀ i o c, d.delimiterLines[i]? = some o → d.delimiterLines[i + 1]? = some c →
    ¬x.Uses o → o.asDelimiter ∈ x.rules ∧ ¬d.HasContent i
  /-- The last delimiter line is a rule if it has no content and its neighbours are blank. -/
  lastRule : ∀ i o, d.delimiterLines[i]? = some o → d.delimiterLines[i + 1]? = none →
    ¬x.Uses o → ¬d.HasContent i ∧ r.BlankNeighbors d o.line.number →
    o.asDelimiter ∈ x.rules ∧ x.orphans = []
  /-- Otherwise the last delimiter line is the orphan. -/
  lastOrphan : ∀ i o, d.delimiterLines[i]? = some o → d.delimiterLines[i + 1]? = none →
    ¬x.Uses o → ¬(¬d.HasContent i ∧ r.BlankNeighbors d o.line.number) →
    o.asDelimiter ∉ x.rules ∧ x.orphans = [o.asDelimiter]

theorem nodup_delimiters : (ofDocument r d).delimiters.Nodup := by
  rw [(perm_delimiters_ofDocument r d).nodup_iff]
  exact (delimiters_sorted d).imp fun hlt he => by simp [he] at hlt

private theorem not_pairs_of_pairs {p o c : KindedLine} (h : (ofDocument r d).Pairs p o) :
    ¬(ofDocument r d).Pairs o c := by
  obtain ⟨a, ha, -, hclosing⟩ := h
  rintro ⟨b, hb, hopening, -⟩
  have hnodup := nodup_delimiters r d
  rw [delimiters, List.append_assoc, List.append_assoc] at hnodup
  refine (List.nodup_append.mp hnodup).2.2 b.opening (List.mem_map_of_mem hb) a.closing ?_
    (hopening.trans hclosing.symm)
  exact List.mem_append_left _ (List.mem_map_of_mem ha)

private theorem not_mem_orphans_of_mem_rules {e : Delimiter} (h : e ∈ (ofDocument r d).rules) :
    e ∉ (ofDocument r d).orphans := by
  intro ho
  have hnodup := nodup_delimiters r d
  exact (List.nodup_append.mp hnodup).2.2 e (List.mem_append_right _ h) e ho rfl

private theorem eq_of_last {i : Nat} {o o' : KindedLine} (h : d.delimiterLines[i]? = some o)
    (hlast : d.delimiterLines[i + 1]? = none) (h' : d.delimiterLines.getLast? = some o') :
    o = o' := by
  have hi := (List.getElem?_eq_some_iff.mp h).1
  rw [List.getElem?_eq_none_iff] at hlast
  rw [List.getLast?_eq_getElem?, show d.delimiterLines.length - 1 = i by omega, h] at h'
  exact Option.some.inj h'

private theorem decided {i : Nat} {o : KindedLine} (h : d.delimiterLines[i]? = some o) :
    (∃ c, d.delimiterLines[i + 1]? = some c ∧ (ofDocument r d).Pairs o c) ∨
      (∃ j p, i = j + 1 ∧ d.delimiterLines[j]? = some p ∧ (ofDocument r d).Pairs p o) ∨
      (d.delimiterLines[i + 1]?.isSome ∧ ¬d.HasContent i ∧
        o.asDelimiter ∈ (ofDocument r d).rules) ∨
      (d.delimiterLines[i + 1]? = none ∧
        ((¬d.HasContent i ∧ r.BlankNeighbors d o.line.number) ∧
            o.asDelimiter ∈ (ofDocument r d).rules ∨
          ¬(¬d.HasContent i ∧ r.BlankNeighbors d o.line.number) ∧
            o.asDelimiter ∈ (ofDocument r d).orphans)) := by
  rw [d.delimiterLines_getElem?] at h
  obtain ⟨s, hs, rfl⟩ := Option.map_eq_some_iff.mp h
  have hisolated := r.isIsolated_iff d hs
  simp only [d.delimiterLines_getElem?]
  cases Section.fate_of_getElem? (r := r) hs with
  | opens t next content found =>
    exact .inl ⟨t.head, by rw [next, Option.map_some], _, mem_blocks_iff.mpr found, rfl, rfl⟩
  | closes j p index before found =>
    exact .inr (.inl ⟨j, p.head, index, by rw [before, Option.map_some], _,
      mem_blocks_iff.mpr found, rfl, rfl⟩)
  | rule t next content found =>
    refine .inr (.inr (.inl ⟨by simp [next], ?_, mem_rules_of_mem found⟩))
    rw [← Document.qualifies_iff hs, content]
    exact Bool.false_ne_true
  | lastRule last isolated found =>
    rw [last] at hisolated
    exact .inr (.inr (.inr ⟨by simp [last], .inl ⟨hisolated.mp isolated, mem_rules_of_mem found⟩⟩))
  | orphan last isolated found =>
    rw [last, isolated] at hisolated
    refine .inr (.inr (.inr ⟨by simp [last], .inr ⟨?_, mem_orphans_of_mem found⟩⟩))
    exact fun hblank => Bool.false_ne_true (hisolated.mpr hblank)

private theorem decided_of_unused {i : Nat} {o : KindedLine} (h : d.delimiterLines[i]? = some o)
    (hunused : ¬(ofDocument r d).Uses o) :
    (d.delimiterLines[i + 1]?.isSome ∧ ¬d.HasContent i ∧ o.asDelimiter ∈ (ofDocument r d).rules) ∨
      (d.delimiterLines[i + 1]? = none ∧
        ((¬d.HasContent i ∧ r.BlankNeighbors d o.line.number) ∧
            o.asDelimiter ∈ (ofDocument r d).rules ∨
          ¬(¬d.HasContent i ∧ r.BlankNeighbors d o.line.number) ∧
            o.asDelimiter ∈ (ofDocument r d).orphans)) := by
  rcases decided r d h with ⟨_, -, b, hb, he, -⟩ | ⟨_, _, -, -, b, hb, -, he⟩ | hrest
  · exact absurd ⟨b, hb, .inl he⟩ hunused
  · exact absurd ⟨b, hb, .inr he⟩ hunused
  · exact hrest

/-- Detection obeys the law of pairing. -/
theorem pairingLaw_ofDocument : PairingLaw r d (ofDocument r d) where
  consecutive := by
    intro b hb
    obtain ⟨i, s, t, hs, ht, content, rfl⟩ := Section.exists_of_block_mem (mem_blocks_iff.mp hb)
    refine ⟨i, s.head, t.head, ?_, ?_, (Document.qualifies_iff hs).mp content, rfl, rfl⟩
    · rw [d.delimiterLines_getElem?, hs, Option.map_some]
    · rw [d.delimiterLines_getElem?, ht, Option.map_some]
  content := by
    intro i o c ho hc hcontent
    rcases decided r d ho with ⟨c', hc', hp⟩ | hp | ⟨-, hno, -⟩ | ⟨hnone, -⟩
    · obtain rfl : c' = c := Option.some.inj (hc'.symm.trans hc)
      exact .inl hp
    · exact .inr hp
    · exact absurd hcontent hno
    · simp [hnone] at hc
  exclusive := fun _ _ _ h => not_pairs_of_pairs r d h
  inner := by
    intro i o c ho hc hunused
    rcases decided_of_unused r d ho hunused with ⟨-, hno, hr⟩ | ⟨hnone, -⟩
    · exact ⟨hr, hno⟩
    · simp [hnone] at hc
  lastRule := by
    intro i o ho hlast hunused hblank
    rcases decided_of_unused r d ho hunused with ⟨hsome, -⟩ | ⟨-, ⟨-, hr⟩ | ⟨hno, -⟩⟩
    · simp [hlast] at hsome
    · refine ⟨hr, ?_⟩
      rcases orphans_ofDocument r d with h | ⟨o', ho', h⟩
      · exact h
      · obtain rfl := eq_of_last d ho hlast ho'
        exact absurd (by simp [h]) (not_mem_orphans_of_mem_rules r d hr)
    · exact absurd hblank hno
  lastOrphan := by
    intro i o ho hlast hunused hblank
    rcases decided_of_unused r d ho hunused with ⟨hsome, -⟩ | ⟨-, ⟨hyes, -⟩ | ⟨-, hmem⟩⟩
    · simp [hlast] at hsome
    · exact absurd hyes hblank
    · refine ⟨fun hr => not_mem_orphans_of_mem_rules r d hr hmem, ?_⟩
      rcases orphans_ofDocument r d with h | ⟨o', -, h⟩
      · simp [h] at hmem
      · rw [h, List.mem_singleton] at hmem
        rw [h, hmem]

-- A pair without content gives up its opening line, and its closing line opens the next block.
example : let x := ofDocument {} (.ofText "---\nprose\n---\ntitle: x\n---\n".toList)
    x.blocks.map (fun b => (b.opening.line, b.closing.line)) = [(3, 5)] ∧
      x.rules.map (·.line) = [1] := by decide +kernel

end Detection

end MetaBlocks
