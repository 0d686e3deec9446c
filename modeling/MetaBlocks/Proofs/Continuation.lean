import MetaBlocks.Proofs.Cuts
import MetaBlocks.Proofs.Settlement

/-!
Text added below a document that ends with a line feed. The lines above stay as they are, and
detection goes on from what they left pending. So the blocks above are kept, and every delimiter
above keeps its role unless it is the last one.
-/

set_option autoImplicit false
set_option relaxedAutoImplicit false

namespace MetaBlocks

namespace Document

/-- The lines that a text adds below a document made of whole rows. -/
def below (d : Document) (s : List Char) : List KindedLine :=
  (Line.ofRows (d.lineCount + 1) d.length (Text.rows s)).map .ofLine

/-- What a text below leaves to settle: the pending section with its new lines, and new sections. -/
def sectionsBelow (d : Document) (s : List Char) : List Section :=
  ((Section.settle d.sections).pending.map
      (Section.extend ((d.below s).takeWhile fun m => !m.isDelimiter))).toList ++
    Section.ofLines d.kindedLines.getLast? (d.below s)

variable {d e : Document} {s : List Char}

private theorem kindedLines_append (h : e.text = d.text ++ s) (hd : Text.EndsRow d.text) :
    e.kindedLines = d.kindedLines ++ d.below s := by
  have hflat := congrArg List.length (Text.rows_flatten d.text)
  rw [kindedLines, lines, h, Text.rows_append hd, Line.ofRows_append, List.map_append, hflat,
    Nat.zero_add, Nat.add_comm 1]
  rfl

theorem settle_sections_append (h : e.text = d.text ++ s) (hd : Text.EndsRow d.text) :
    Section.settle e.sections =
      (Section.settle d.sections).followedBy (Section.settle (d.sectionsBelow s)) := by
  rw [sections, kindedLines_append h hd, Section.settle_ofLines_append, Option.or_none]
  rfl

end Document

namespace Detection

variable (r : DetectionRules) {d e : Document} {s : List Char}

theorem blocks_append (h : e.text = d.text ++ s) (hd : Text.EndsRow d.text) :
    (ofDocument r e).blocks =
      (ofDocument r d).blocks ++ (Section.settle (d.sectionsBelow s)).blocks := by
  rw [ofDocument_eq, ofDocument_eq, Document.settle_sections_append h hd]
  exact Settlement.blocks_followedBy _ _

theorem rules_append (h : e.text = d.text ++ s) (hd : Text.EndsRow d.text) :
    (ofDocument r e).rules = (Section.settle d.sections).passed.map (·.head.asDelimiter) ++
      ((Section.settle (d.sectionsBelow s)).detection r).rules := by
  rw [ofDocument_eq, Document.settle_sections_append h hd, Settlement.rules_followedBy]

private theorem mem_dropLast_ne_getLast? {l : Delimiter} {o : KindedLine}
    (hl : l ∈ (d.delimiterLines.map KindedLine.asDelimiter).dropLast)
    (ho : d.delimiterLines.getLast? = some o) : l ≠ o.asDelimiter := by
  have hlast : (d.delimiterLines.map KindedLine.asDelimiter).getLast? = some o.asDelimiter := by
    rw [List.getLast?_map, ho, Option.map_some]
  have hsplit := List.dropLast_append_getLast? o.asDelimiter hlast
  have hsorted := delimiters_sorted d
  rw [← hsplit, List.pairwise_append] at hsorted
  have hlt := hsorted.2.2 l hl o.asDelimiter (List.mem_singleton_self _)
  intro he
  rw [he] at hlt
  exact Nat.lt_irrefl _ hlt

private theorem exists_role_append (h : e.text = d.text ++ s) (hd : Text.EndsRow d.text)
    {l : Delimiter} (hl : l ∈ (d.delimiterLines.map KindedLine.asDelimiter).dropLast) :
    ∃ a, a ≠ .orphan ∧ l ∈ (ofDocument r d).inRole a ∧ l ∈ (ofDocument r e).inRole a := by
  have hmem := (perm_delimiters_ofDocument r d).mem_iff.mpr ((List.dropLast_sublist _).subset hl)
  obtain ⟨a, ha⟩ := mem_delimiters_iff.mp hmem
  cases a with
  | opening =>
    refine ⟨.opening, by decide, ha, ?_⟩
    rw [inRole, blocks_append r h hd, List.map_append]
    exact List.mem_append_left _ ha
  | closing =>
    refine ⟨.closing, by decide, ha, ?_⟩
    rw [inRole, blocks_append r h hd, List.map_append]
    exact List.mem_append_left _ ha
  | rule =>
    refine ⟨.rule, by decide, ha, ?_⟩
    rw [inRole, rules_append r h hd]
    rw [inRole, ofDocument_eq, Settlement.detection, List.map_append, List.mem_append] at ha
    rcases ha with hpassed | hpending
    · exact List.mem_append_left _ hpassed
    -- A rule that is not passed over is the pending section, whose head is the last delimiter.
    · obtain ⟨q, hq, rfl⟩ := List.mem_map.mp hpending
      rw [Option.mem_toList, Option.filter_eq_some_iff] at hq
      exact absurd rfl (mem_dropLast_ne_getLast? hl (getLast?_delimiterLines_of_pending hq.1))
  | orphan =>
    rcases orphans_ofDocument r d with hnone | ⟨o, ho, hone⟩
    · rw [inRole, hnone] at ha
      cases ha
    · rw [inRole, hone, List.mem_singleton] at ha
      exact absurd ha (mem_dropLast_ne_getLast? hl ho)

/-- Text below never changes what is decided above: the blocks stay, and every delimiter but the
last has one role, which it keeps. -/
theorem decided_above_kept (h : e.text = d.text ++ s) (hd : Text.EndsRow d.text) :
    (ofDocument r d).blocks <+: (ofDocument r e).blocks ∧
      ∀ l ∈ (d.delimiterLines.map KindedLine.asDelimiter).dropLast,
        ∃ a, a ≠ .orphan ∧ ∀ b, (l ∈ (ofDocument r d).inRole b ↔ b = a) ∧
          (l ∈ (ofDocument r e).inRole b ↔ b = a) := by
  constructor
  · rw [blocks_append r h hd]
    exact List.prefix_append _ _
  · intro l hl
    obtain ⟨a, hne, ha, ha'⟩ := exists_role_append r h hd hl
    refine ⟨a, hne, ?_⟩
    intro b
    refine ⟨⟨fun hb => role_unique r hb ha, ?_⟩, ⟨fun hb => role_unique r hb ha', ?_⟩⟩
    · rintro rfl
      exact ha
    · rintro rfl
      exact ha'

/-- The last delimiter, an orphan so far, opens a block once its closing line is typed. -/
theorem decided_above_kept_orphanOpens :
    let d : Document := .ofText "---\nk: v\n---\n---\n---\n".toList
    let e : Document := .ofText (d.text ++ "SCOPE: a\n---\n".toList)
    Text.EndsRow d.text ∧ (ofDocument {} d).orphans.map (·.line) = [5] ∧
      (ofDocument {} e).blocks.map (·.opening.line) = [1, 5] ∧
      (ofDocument {} d).blocks <+: (ofDocument {} e).blocks ∧
      ∀ l ∈ (d.delimiterLines.map KindedLine.asDelimiter).dropLast,
        ∃ a, a ≠ .orphan ∧ ∀ b, (l ∈ (ofDocument {} d).inRole b ↔ b = a) ∧
          (l ∈ (ofDocument {} e).inRole b ↔ b = a) := by
  intro d e
  have hd : Text.EndsRow d.text := .inr (by decide)
  exact ⟨hd, by decide +kernel, by decide +kernel, decided_above_kept {} rfl hd⟩

end Detection

end MetaBlocks
