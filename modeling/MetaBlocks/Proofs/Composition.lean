import MetaBlocks.Proofs.Blocks
import MetaBlocks.Proofs.Continuation
import MetaBlocks.Proofs.Relocation

/-!
Detection composes. A document whose last delimiter closes a block leaves nothing pending, so the
text below it is settled as a document of its own, on later lines and at later offsets. Only the
line above its first delimiter is another one, and that line has no part in the blocks.
-/

set_option autoImplicit false
set_option relaxedAutoImplicit false

namespace MetaBlocks

namespace Section

private theorem isIsolated_above {r : DetectionRules} {above above' : Option KindedLine}
    (h : r.blankNeighbor above = r.blankNeighbor above') (l : KindedLine) (body : List KindedLine)
    (next : Option Section) :
    r.isIsolated ⟨above, l, body⟩ next = r.isIsolated ⟨above', l, body⟩ next := by
  simp only [DetectionRules.isIsolated, DetectionRules.blankAround, h]
  rfl

private theorem detection_ofLines_above {r : DetectionRules} {above above' : Option KindedLine}
    (h : r.blankNeighbor above = r.blankNeighbor above') (ls : List KindedLine) :
    (settle (ofLines above ls)).detection r = (settle (ofLines above' ls)).detection r := by
  cases ls with
  | nil => rfl
  | cons l ls =>
    by_cases hl : l.isDelimiter
    · rw [ofLines, if_pos hl, ofLines, if_pos hl]
      generalize ls.takeWhile (fun m => !m.isDelimiter) = body
      cases ofLines (some l) ls with
      | nil =>
        by_cases hisolated : r.isIsolated ⟨above, l, body⟩ none = true
        · rw [Settlement.detection_of_isolated rfl hisolated]
          rw [isIsolated_above h] at hisolated
          rw [Settlement.detection_of_isolated rfl hisolated]
          rfl
        · rw [Settlement.detection_of_not_isolated rfl hisolated]
          rw [isIsolated_above h] at hisolated
          rw [Settlement.detection_of_not_isolated rfl hisolated]
          rfl
      | cons t rest =>
        by_cases content : (Section.mk above l body).qualifies = true
        · have content' : (Section.mk above' l body).qualifies = true := content
          rw [settle_pair content, settle_pair content']
          rfl
        · have content' : ¬(Section.mk above' l body).qualifies = true := content
          rw [settle_pass content, settle_pass content']
          rfl
    · rw [ofLines, if_neg hl, ofLines, if_neg hl]

private theorem blocks_ofLines_above (above : Option KindedLine) (ls : List KindedLine) :
    (settle (ofLines above ls)).blocks = (settle (ofLines none ls)).blocks := by
  cases above with
  | none => rfl
  | some l =>
    -- Blocks do not depend on the rules: take those that see no difference between the two.
    have hblank : DetectionRules.blankNeighbor { missingIsBlank := l.isBlank } (some l) =
        DetectionRules.blankNeighbor { missingIsBlank := l.isBlank } none := rfl
    exact congrArg Detection.blocks (detection_ofLines_above hblank ls)

end Section

private theorem Line.forall₂_moved_ofRows (lines chars number start : Nat) (rs : List (List Char)) :
    List.Forall₂ (Line.Moved (.shift lines chars)) (ofRows number start rs)
      (ofRows (number + lines) (start + chars) rs) := by
  induction rs generalizing number start with
  | nil => exact .nil
  | cons r rs ih =>
    have hrest := ih (number + 1) (start + r.length)
    rw [Nat.add_right_comm number 1 lines, Nat.add_right_comm start r.length chars] at hrest
    refine .cons ⟨rfl, rfl, ?_, ?_⟩ hrest
    · intro k _
      exact Nat.add_right_comm start chars k
    · exact Nat.add_right_comm start chars r.length

namespace Document

private theorem length_kindedLines (d : Document) : d.kindedLines.length = d.lineCount := by
  rw [kindedLines, List.length_map, lines, Line.length_ofRows, lineCount]

private theorem forall₂_moved_below (d c : Document) :
    List.Forall₂ (KindedLine.Moved (.shift d.lineCount d.length)) c.kindedLines
      (d.below c.text) := by
  have hlines := Line.forall₂_moved_ofRows d.lineCount d.length 1 0 (Text.rows c.text)
  rw [Nat.add_comm 1, Nat.zero_add] at hlines
  rw [kindedLines, below, List.forall₂_map_left_iff, List.forall₂_map_right_iff]
  exact hlines.imp fun _ _ h => KindedLine.moved_ofLine h

end Document

namespace Detection

variable {r : DetectionRules} {d c e : Document}

private theorem detection_below (r : DetectionRules) (d c : Document) :
    (Section.settle (Section.ofLines none (d.below c.text))).detection r =
      (ofDocument r c).relocate (.shift d.lineCount d.length) := by
  have hsections := Section.forall₂_ofLines KindedLine.alike_moved.isDelimiter
    (d.forall₂_moved_below c) .none
  have hcorresponds := corresponds_ofFindings
    (Section.forall₂_findings KindedLine.alike_moved r hsections)
  rw [← Section.ofFindings_findings]
  exact hcorresponds.eq_relocate

private theorem pending_eq_none
    (h : ∀ o ∈ d.delimiterLines.getLast?, o.asDelimiter ∈ (ofDocument r d).inRole .closing) :
    (Section.settle d.sections).pending = none := by
  cases hq : (Section.settle d.sections).pending with
  | none => rfl
  | some q =>
    have hclosing := h q.head (getLast?_delimiterLines_of_pending hq)
    by_cases hisolated : r.isIsolated q none = true
    · have hrule : q.head.asDelimiter ∈ (ofDocument r d).inRole .rule := by
        rw [ofDocument_eq, Settlement.detection_of_isolated hq hisolated, inRole]
        exact List.mem_map_of_mem (List.mem_append_right _ List.mem_cons_self)
      cases role_unique r hclosing hrule
    · have horphan : q.head.asDelimiter ∈ (ofDocument r d).inRole .orphan := by
        rw [ofDocument_eq, Settlement.detection_of_not_isolated hq hisolated, inRole]
        exact List.mem_cons_self
      cases role_unique r hclosing horphan

private theorem sectionsBelow_of_pending {s : List Char}
    (h : (Section.settle d.sections).pending = none) :
    d.sectionsBelow s = Section.ofLines d.kindedLines.getLast? (d.below s) := by
  rw [Document.sectionsBelow, h]
  rfl

private theorem exists_last_of_closing
    (h : d.lineCount ∈ ((ofDocument r d).inRole .closing).map (·.line)) :
    ∃ l, d.kindedLines.getLast? = some l ∧ l.isBlank = false := by
  simp only [inRole, List.map_map, List.mem_map, Function.comp_apply] at h
  obtain ⟨b, hb, hline⟩ := h
  obtain ⟨i, s, t, -, ht, -, rfl⟩ := Block.exists_sections hb
  have hmem : t.head ∈ d.delimiterLines := by
    rw [← d.map_head_sections]
    exact List.mem_map_of_mem (List.mem_of_getElem? ht)
  obtain ⟨hmem, hdelimiter⟩ := List.mem_filter.mp hmem
  obtain ⟨j, hj⟩ := List.mem_iff_getElem?.mp hmem
  have hnumber := d.number_of_kindedLine_at hj
  refine ⟨t.head, ?_, ?_⟩
  · have hlast : d.kindedLines.length - 1 = j := by
      have hcount : t.head.line.number = d.lineCount := hline
      rw [d.length_kindedLines]
      omega
    rw [List.getLast?_eq_getElem?, hlast, hj]
  · have hkind : t.head.kind = .delimiter := of_decide_eq_true hdelimiter
    rw [KindedLine.isBlank, hkind]
    rfl

/-- Below a document whose last delimiter closes a block, blocks are found as in the text below
alone, on later lines and at later offsets. If the document ends with that closing line and missing
neighbours do not count as blank, so are rules and orphans. -/
theorem ofDocument_composes (h : e.text = d.text ++ c.text) (hd : Text.EndsRow d.text)
    (hclosed : ∀ o ∈ d.delimiterLines.getLast?, o.asDelimiter ∈ (ofDocument r d).inRole .closing) :
    let m := Relocation.shift d.lineCount d.length
    (ofDocument r e).blocks =
        (ofDocument r d).blocks ++ (ofDocument r c).blocks.map (Block.relocate m) ∧
      (d.lineCount ∈ ((ofDocument r d).inRole .closing).map (·.line) → r.missingIsBlank = false →
        (ofDocument r e).rules =
            (ofDocument r d).rules ++ (ofDocument r c).rules.map (Delimiter.relocate m) ∧
          (ofDocument r e).orphans =
            (ofDocument r d).orphans ++ (ofDocument r c).orphans.map (Delimiter.relocate m)) := by
  intro m
  have hpending := pending_eq_none hclosed
  have hbelow := sectionsBelow_of_pending (s := c.text) hpending
  have hdetection := detection_below r d c
  constructor
  · rw [blocks_append r h hd, hbelow, Section.blocks_ofLines_above]
    exact congrArg ((ofDocument r d).blocks ++ ·) (congrArg Detection.blocks hdetection)
  · intro hlast hmissing
    obtain ⟨l, hl, hblank⟩ := exists_last_of_closing hlast
    have habove : r.blankNeighbor d.kindedLines.getLast? = r.blankNeighbor none := by
      rw [hl, DetectionRules.blankNeighbor, DetectionRules.blankNeighbor, hblank, hmissing]
    rw [← Section.detection_ofLines_above habove, ← hbelow] at hdetection
    constructor
    · rw [rules_append r h hd, hdetection, ofDocument_eq r d, Settlement.detection_of_none hpending]
      rfl
    · rw [ofDocument_eq r e, Document.settle_sections_append h hd, Settlement.orphans_followedBy,
        hdetection, ofDocument_eq r d, Settlement.detection_of_none hpending]
      rfl

theorem ofDocument_composes_eachRole :
    let d : Document := .ofText "k: v\n---\nSCOPE: a\n---\n".toList
    let c : Document := .ofText "---\nprose\n---\nk: 1\n---\n---\n".toList
    let e : Document := .ofText (d.text ++ c.text)
    let m := Relocation.shift d.lineCount d.length
    Text.EndsRow d.text ∧
      (∀ o ∈ d.delimiterLines.getLast?, o.asDelimiter ∈ (ofDocument {} d).inRole .closing) ∧
      d.lineCount ∈ ((ofDocument {} d).inRole .closing).map (·.line) ∧
      (ofDocument {} e).blocks =
        (ofDocument {} d).blocks ++ (ofDocument {} c).blocks.map (Block.relocate m) ∧
      (ofDocument {} e).rules =
        (ofDocument {} d).rules ++ (ofDocument {} c).rules.map (Delimiter.relocate m) ∧
      (ofDocument {} e).orphans =
        (ofDocument {} d).orphans ++ (ofDocument {} c).orphans.map (Delimiter.relocate m) := by
  intro d c e m
  have hd : Text.EndsRow d.text := .inr (by decide)
  have hclosed : ∀ o ∈ d.delimiterLines.getLast?,
      o.asDelimiter ∈ (ofDocument {} d).inRole .closing := by decide +kernel
  have hlast : d.lineCount ∈ ((ofDocument {} d).inRole .closing).map (·.line) := by decide +kernel
  have hcomposes := ofDocument_composes (e := e) (c := c) rfl hd hclosed
  exact ⟨hd, hclosed, hlast, hcomposes.1, hcomposes.2 hlast rfl⟩

end Detection

end MetaBlocks
