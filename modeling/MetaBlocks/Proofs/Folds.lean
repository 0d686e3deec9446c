import MetaBlocks.Proofs.LineSearch
import MetaBlocks.Proofs.Viewport
import MetaBlocks.Proofs.Tiling

/-!
What folds hide. The fold of a block starts at the line break after the opening delimiter and ends
at the one before the closing delimiter, so that what is left reads as the two delimiter lines with
one break between them. The regions handed to a host are the same folds with lines counted from
zero.
-/

set_option autoImplicit false
set_option relaxedAutoImplicit false

namespace MetaBlocks

namespace Document

variable (d : Document)

def lineBreak (l : Line) : List Char := d.slice ⟨l.stop, l.nextStart⟩

private theorem lineBreak_of_next {i : Nat} {l : Line} (h : d.lines[i]? = some l)
    (hnext : i + 1 < d.lines.length) : d.lineBreak l = ['\n'] ∨ d.lineBreak l = ['\r', '\n'] := by
  rcases slice_lineBreak (List.mem_of_getElem? h) with hfeed | hpair | ⟨-, hlast⟩
  · exact .inl hfeed
  · exact .inr hpair
  · rw [List.getLast?_eq_getElem?] at hlast
    have hhere := (d.line_at h).1
    have hend := (d.line_at hlast).1
    omega

private theorem slice_run (pre run post : List Line) (h : d.lines = pre ++ (run ++ post)) :
    d.slice ⟨d.rowStart pre.length, d.rowStart (pre.length + run.length)⟩ =
      run.flatMap fun l => l.text ++ d.lineBreak l := by
  induction run generalizing pre with
  | nil => simp [slice]
  | cons l run ih =>
    have hat : d.lines[pre.length]? = some l := by simp [h]
    obtain ⟨-, hstart, hnext, -, hstop⟩ := d.line_at hat
    have hown : l.start ≤ l.stop := Nat.le_add_right _ _
    have hrest := ih (pre ++ [l]) (by simp [h])
    rw [List.length_append, List.length_singleton, ← hnext] at hrest
    have hlater : l.nextStart ≤ d.rowStart (pre.length + 1 + run.length) := by
      rw [hnext]
      exact d.rowStart_mono (by omega)
    rw [List.flatMap_cons, ← hrest, ← slice_text (List.mem_of_getElem? hat), lineBreak, ← hstart,
      List.length_cons, ← Nat.add_assoc, Nat.add_right_comm, slice_append_slice hown hstop,
      slice_append_slice (by omega) hlater]

private theorem stop_lt_of_next {i : Nat} {l : Line} (h : d.lines[i]? = some l)
    (hnext : i + 1 < d.lines.length) : l.stop < l.nextStart := by
  refine Nat.lt_of_not_le fun hle => ?_
  have hnone : d.lineBreak l = [] := slice_eq_nil hle
  rcases d.lineBreak_of_next h hnext with hbreak | hbreak <;> simp [hnone] at hbreak

private theorem map_line_kindedLines : d.kindedLines.map (·.line) = d.lines := by
  rw [kindedLines, List.map_map]
  exact List.map_id d.lines

end Document

namespace Fold

/-- What the fold of a block has to hide: the break after the opening line and the body, without
the break that the closing line needs before it. -/
structure HidesBody (d : Document) (b : Block) (f : Fold) : Prop where
  startLine : f.startLine = b.opening.line
  endLine : f.endLine = b.closing.line
  nonempty : f.hidden.start < f.hidden.stop
  lineCount : f.bodyLineCount = (d.linesBetween b.opening.line b.closing.line).length
  text : ∃ opener inner last, d.line? b.opening.line = some opener ∧
    (d.linesBetween b.opening.line b.closing.line).map (·.line) = inner ++ [last] ∧
    f.hidden = ⟨opener.stop, last.stop⟩ ∧
    d.slice f.hidden =
      d.lineBreak opener ++ (inner.flatMap fun l => l.text ++ d.lineBreak l) ++ last.text ∧
    d.slice ⟨f.hidden.stop, b.closing.extent.start⟩ = d.lineBreak last ∧
    ∀ l ∈ opener :: (inner ++ [last]), d.lineBreak l = ['\n'] ∨ d.lineBreak l = ['\r', '\n']

end Fold

/-- A block in its document: the line that opens it, its body down to a last line, and the line that
closes it, one below the other. -/
structure Block.Place (d : Document) (b : Block) where
  above : List Line
  opener : Line
  inner : List Line
  last : Line
  closer : Line
  below : List Line
  lines : d.lines = above ++ opener :: (inner ++ last :: closer :: below)
  body : (d.linesBetween b.opening.line b.closing.line).map (·.line) = inner ++ [last]
  opening : b.opening = ⟨opener.number, ⟨opener.start, opener.stop⟩⟩
  closing : b.closing = ⟨closer.number, ⟨closer.start, closer.stop⟩⟩
  bodyStop : b.bodyExtent.stop = last.stop

variable {r : DetectionRules} {d : Document} {b : Block}

private theorem Block.exists_place (h : b ∈ (Detection.ofDocument r d).blocks) :
    Nonempty (b.Place d) := by
  obtain ⟨i, s, t, hs, ht, content, rfl⟩ := exists_sections h
  obtain ⟨pre, post, hrun⟩ := Section.exists_run hs ht
  have hbetween := Document.body_eq_linesBetween hs ht
  rcases List.eq_nil_or_concat s.body with hnil | ⟨inner, last, hbody⟩
  · simp [Section.qualifies, hnil] at content
  refine ⟨⟨pre.map (·.line), s.head.line, inner.map (·.line), last.line, t.head.line,
    post.map (·.line), ?_, ?_, rfl, rfl, ?_⟩⟩
  · rw [← d.map_line_kindedLines, hrun, hbody]
    simp
  · simp only [ofSection, KindedLine.asDelimiter]
    rw [← hbetween, hbody]
    simp
  · simp [ofSection, hbody]

namespace Block.Place

variable (p : b.Place d)

private theorem opener_at : d.lines[p.above.length]? = some p.opener := by
  simp [p.lines]

private theorem last_at : d.lines[p.above.length + 1 + p.inner.length]? = some p.last := by
  rw [p.lines, List.getElem?_append_right (by omega)]
  simp [Nat.add_assoc, Nat.add_comm 1]

private theorem closer_at : d.lines[p.above.length + 1 + p.inner.length + 1]? = some p.closer := by
  rw [p.lines, List.getElem?_append_right (by omega)]
  simp [Nat.add_assoc, Nat.add_comm 1]

private theorem opening_line : b.opening.line = p.above.length + 1 := by
  rw [p.opening]
  exact (d.line_at p.opener_at).1

private theorem closing_line : b.closing.line = p.above.length + 1 + p.inner.length + 1 + 1 := by
  rw [p.closing]
  exact (d.line_at p.closer_at).1

private theorem length_lines :
    d.lines.length = p.above.length + p.inner.length + p.below.length + 3 := by
  rw [p.lines]
  simp only [List.length_append, List.length_cons]
  omega

private theorem lineBreak_of_mem {l : Line} (h : l ∈ p.opener :: (p.inner ++ [p.last])) :
    d.lineBreak l = ['\n'] ∨ d.lineBreak l = ['\r', '\n'] := by
  obtain ⟨i, hi⟩ := List.mem_iff_getElem?.mp h
  have hlt := (List.getElem?_eq_some_iff.mp hi).1
  simp only [List.length_cons, List.length_append, List.length_nil] at hlt
  refine d.lineBreak_of_next (i := p.above.length + i) ?_ (by rw [p.length_lines]; omega)
  rw [show d.lines = p.above ++ ((p.opener :: (p.inner ++ [p.last])) ++ p.closer :: p.below) by
      simp [p.lines], List.getElem?_append_right (by omega), Nat.add_sub_cancel_left,
    List.getElem?_append_left (by simpa using hlt), hi]

private theorem opener_stop_lt : p.opener.stop < p.opener.nextStart :=
  d.stop_lt_of_next p.opener_at (by rw [p.length_lines]; omega)

private theorem nextStart_opener_le : p.opener.nextStart ≤ p.last.start := by
  rw [(d.line_at p.opener_at).2.2.1, (d.line_at p.last_at).2.1]
  exact d.rowStart_mono (by omega)

private theorem slice_hidden : d.slice ⟨p.opener.stop, p.last.stop⟩ = d.lineBreak p.opener ++
    (p.inner.flatMap fun l => l.text ++ d.lineBreak l) ++ p.last.text := by
  have hopener := (d.line_at p.opener_at).2.2.1
  have hlast := (d.line_at p.last_at).2.1
  have hbreak := p.opener_stop_lt
  have hdown := p.nextStart_opener_le
  have hrun := d.slice_run (p.above ++ [p.opener]) p.inner (p.last :: p.closer :: p.below)
    (by simp [p.lines])
  rw [List.length_append, List.length_singleton, ← hopener, ← hlast] at hrun
  rw [← hrun, ← Document.slice_text (List.mem_of_getElem? p.last_at), Document.lineBreak,
    Document.slice_append_slice (by omega) hdown,
    Document.slice_append_slice (by omega) (show p.last.start ≤ p.last.stop from Nat.le_add_right _ _)]

end Block.Place

namespace Fold

private theorem hidesBody_of_mem (h : b ∈ (Detection.ofDocument r d).blocks) :
    (ofBlock b).HidesBody d b := by
  obtain ⟨p⟩ := Block.exists_place h
  have hhidden : (ofBlock b).hidden = ⟨p.opener.stop, p.last.stop⟩ := by
    rw [ofBlock, p.opening, p.bodyStop]
  constructor
  · rfl
  · rfl
  · have hbreak := p.opener_stop_lt
    have hdown := p.nextStart_opener_le
    have hown : p.last.start ≤ p.last.stop := Nat.le_add_right _ _
    rw [hhidden]
    exact Nat.lt_of_lt_of_le hbreak (Nat.le_trans hdown hown)
  · have hlength := congrArg List.length p.body
    have hopening := p.opening_line
    have hclosing := p.closing_line
    rw [List.length_map, List.length_append, List.length_singleton] at hlength
    change b.closing.line - (b.opening.line + 1) = _
    omega
  · refine ⟨p.opener, p.inner, p.last, ?_, p.body, hhidden, ?_, ?_, fun l hl => p.lineBreak_of_mem hl⟩
    · rw [p.opening_line]
      exact p.opener_at
    · rw [hhidden, p.slice_hidden]
    · rw [hhidden, p.closing, (d.line_at p.closer_at).2.1, ← (d.line_at p.last_at).2.2.1]
      rfl

end Fold

namespace FoldRegion

/-- A region is the fold of a block as a host counts lines: both ends from zero, and expanded. -/
structure Shows (placeholder : List Char) (f : Fold) (g : FoldRegion) : Prop where
  startLine : g.startLine + 1 = f.startLine
  endLine : g.endLine + 1 = f.endLine
  isCollapsed : g.isCollapsed = false
  placeholder : g.placeholder = placeholder

private theorem shows_ofBlock (h : b ∈ (Detection.ofDocument r d).blocks)
    (placeholder : List Char) : Shows placeholder (.ofBlock b) (ofBlock placeholder b) := by
  have hopening := Block.opening_pos h
  have happart := (Block.wellFormed_of_mem h).apart
  exact ⟨Nat.sub_add_cancel hopening, Nat.sub_add_cancel (by omega), rfl, rfl⟩

private theorem endLine_lt (h : b ∈ (Detection.ofDocument r d).blocks) (placeholder : List Char) :
    (ofBlock placeholder b).endLine < d.lineCount := by
  obtain ⟨p⟩ := Block.exists_place h
  have hclosing := p.closing_line
  rw [← d.length_lines, p.length_lines]
  change b.closing.line - 1 < _
  omega

end FoldRegion

/-- A line folds exactly when it opens a block, and its fold hides the block's body; the regions for
a host are the folds of all blocks in order, which do not overlap and lie in the document. -/
theorem Fold.atLine?_hides_body (r : DetectionRules) (d : Document) (line : Nat)
    (placeholder : List Char) :
    let blocks := (Detection.ofDocument r d).blocks
    let regions := FoldRegion.ofBlocks placeholder blocks
    ((atLine? line blocks).isSome = true ↔ ∃ b ∈ blocks, b.opening.line = line) ∧
      (∀ b ∈ blocks, b.opening.line = line →
        ∃ f, atLine? line blocks = some f ∧ f.HidesBody d b) ∧
      List.Forall₂ (fun b g => ∃ f, atLine? b.opening.line blocks = some f ∧ g.Shows placeholder f)
        blocks regions ∧
      regions.Pairwise (fun g g' => g.endLine < g'.startLine) ∧
      ∀ g ∈ regions, g.endLine < d.lineCount := by
  intro blocks regions
  have hordered := Block.LineOrdered.ofDocument r d
  refine ⟨?_, ?_, ?_, ?_, ?_⟩
  · rw [hordered.atLine?_eq_find?, Option.isSome_map, List.find?_isSome]
    simp only [decide_eq_true_eq, blocks]
  · rintro b hb rfl
    exact ⟨.ofBlock b, Block.atLine?_of_mem hordered hb, hidesBody_of_mem hb⟩
  · refine List.forall₂_map_right_iff.mpr (List.forall₂_same.mpr fun b hb => ?_)
    exact ⟨.ofBlock b, Block.atLine?_of_mem hordered hb, FoldRegion.shows_ofBlock hb placeholder⟩
  · refine List.pairwise_map.mpr (hordered.pairwise.imp_of_mem fun {a b} ha hb hab => ?_)
    have hend : _ = a.closing.line := (FoldRegion.shows_ofBlock ha placeholder).endLine
    have hstart : _ = b.opening.line := (FoldRegion.shows_ofBlock hb placeholder).startLine
    omega
  · intro g hg
    obtain ⟨b, hb, rfl⟩ := List.mem_map.mp hg
    exact FoldRegion.endLine_lt hb placeholder

-- The break after the last body line stays; those above it are hidden, carriage return included.
example : Fold.atLine? 2 (Detection.ofDocument {} (.ofText "x\r\n---\r\na: 1\n\r\n---".toList)).blocks =
    some ⟨2, 5, ⟨6, 13⟩⟩ := by
  decide +kernel

end MetaBlocks
