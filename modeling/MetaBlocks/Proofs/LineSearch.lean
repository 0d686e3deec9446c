import MetaBlocks.Folding
import MetaBlocks.Proofs.Bisection
import MetaBlocks.Proofs.Blocks

/-!
Blocks found by line. Two searches go by bisection, one over the closing lines for the block around
a line, one over the opening lines for the fold of a line. Where the blocks go down the page, both
find what a walk through all blocks finds, and a line lies in at most one block.
-/

set_option autoImplicit false
set_option relaxedAutoImplicit false

namespace MetaBlocks

/-- Blocks that go down the page: none closes above its opening line, and each opens below the line
on which the one before it closes. Nothing is said about their characters. -/
structure Block.LineOrdered (blocks : List Block) : Prop where
  own : ∀ b ∈ blocks, b.opening.line ≤ b.closing.line
  next : blocks.IsChain fun a b => a.closing.line < b.opening.line

namespace Block.LineOrdered

variable {blocks : List Block}

theorem pairwise (h : LineOrdered blocks) :
    blocks.Pairwise fun a b => a.closing.line < b.opening.line := by
  obtain ⟨own, next⟩ := h
  induction blocks with
  | nil => exact .nil
  | cons a blocks ih =>
    have hrest := ih (fun b hb => own b (List.mem_cons_of_mem a hb)) next.tail
    refine List.pairwise_cons.mpr ⟨fun c hc => ?_, hrest⟩
    cases blocks with
    | nil => cases hc
    | cons b blocks =>
      have hab := (List.isChain_cons_cons.mp next).1
      rcases List.mem_cons.mp hc with rfl | hc
      · exact hab
      · have hb := own b (List.mem_cons_of_mem a List.mem_cons_self)
        have hbc := (List.pairwise_cons.mp hrest).1 c hc
        omega

theorem ofDocument (r : DetectionRules) (d : Document) :
    LineOrdered (Detection.ofDocument r d).blocks where
  own := fun b hb => Nat.le_of_lt ((Detection.blocks_sorted r d).1 b hb)
  next := (Detection.blocks_sorted r d).2.isChain

variable (h : LineOrdered blocks) (line : Nat)
include h

/-- The first block that does not close above a line is the only one that can hold it. -/
theorem around?_eq_find? :
    around? line blocks = blocks.find? fun b => b.containsLine line := by
  have hends : blocks.Pairwise fun a b => decide (b.closing.line < line) = true →
      decide (a.closing.line < line) = true :=
    h.pairwise.imp_of_mem fun {a b} _ hb hab hline => by
      have hown := h.own b hb
      simp only [decide_eq_true_eq] at hline ⊢
      omega
  rw [around?, Bisect.getElem?_partitionPoint hends]
  refine Bisect.filter_find?_eq_find? (fun b _ hin => ?_) (h.pairwise.imp fun {a b} hab ha => ?_)
  · simp only [containsLine, Bool.and_eq_true, decide_eq_true_eq, Bool.not_eq_true',
      decide_eq_false_iff_not] at hin ⊢
    omega
  -- Once a block closes on the line or below it, the next ones open below it.
  · simp only [containsLine, Bool.and_eq_false_iff, Bool.not_eq_true', decide_eq_false_iff_not]
      at ha ⊢
    omega

private theorem length_filter_containsLine_le :
    (blocks.filter fun b => b.containsLine line).length ≤ 1 := by
  have hpairs := h.pairwise.filter fun b => b.containsLine line
  have hall : ∀ b ∈ blocks.filter fun b => b.containsLine line, b.containsLine line = true :=
    fun b hb => (List.mem_filter.mp hb).2
  generalize (blocks.filter fun b => b.containsLine line) = found at hpairs hall
  rcases found with _ | ⟨a, _ | ⟨b, rest⟩⟩
  · exact Nat.zero_le 1
  · exact Nat.le_refl 1
  · have hab := (List.pairwise_cons.mp hpairs).1 b List.mem_cons_self
    have ha := hall a List.mem_cons_self
    have hb := hall b (List.mem_cons_of_mem a List.mem_cons_self)
    simp only [containsLine, Bool.and_eq_true, decide_eq_true_eq] at ha hb
    omega

private theorem around?_eq_some_iff (b : Block) :
    around? line blocks = some b ↔ b ∈ blocks ∧ b.containsLine line = true := by
  have hlength := h.length_filter_containsLine_le line
  have hmem : b ∈ (blocks.filter fun b => b.containsLine line) ↔
      b ∈ blocks ∧ b.containsLine line = true := List.mem_filter
  rw [h.around?_eq_find? line, ← List.head?_filter, ← hmem]
  generalize (blocks.filter fun b => b.containsLine line) = found at hlength
  rcases found with _ | ⟨a, _ | ⟨c, rest⟩⟩
  · simp
  · simp [eq_comm]
  · simp at hlength

theorem atLine?_eq_find? : Fold.atLine? line blocks =
    (blocks.find? fun b => b.opening.line = line).map Fold.ofBlock := by
  have hprobe : blocks.Pairwise fun a b => compare a.opening.line line ≠ .lt →
      compare b.opening.line line = .gt :=
    h.pairwise.imp_of_mem fun {a b} ha _ hab hline => by
      have hown := h.own a ha
      rw [Nat.compare_ne_lt] at hline
      rw [Nat.compare_eq_gt]
      omega
  have hfind := Bisect.bind_find?_eq_find? hprobe
  simp only [Nat.compare_eq_eq] at hfind
  rw [← hfind, Option.map_eq_bind, Option.bind_assoc]
  rfl

end Block.LineOrdered

namespace Block

private theorem exists_around?_of_atLine? {blocks : List Block} (h : LineOrdered blocks)
    {line : Nat} {f : Fold} (hf : Fold.atLine? line blocks = some f) :
    ∃ b, around? line blocks = some b ∧ b.opening.line = line ∧ f = .ofBlock b := by
  rw [h.atLine?_eq_find? line] at hf
  obtain ⟨b, hfound, rfl⟩ := Option.map_eq_some_iff.mp hf
  have hline : b.opening.line = line := by simpa using List.find?_some hfound
  have hmem := List.mem_of_find?_eq_some hfound
  have hown := h.own b hmem
  refine ⟨b, (h.around?_eq_some_iff line b).mpr ⟨hmem, ?_⟩, hline, rfl⟩
  simp only [containsLine, Bool.and_eq_true, decide_eq_true_eq]
  omega

theorem atLine?_of_mem {blocks : List Block} (h : LineOrdered blocks) {b : Block} (hb : b ∈ blocks) :
    Fold.atLine? b.opening.line blocks = some (.ofBlock b) := by
  have hfound : (Fold.atLine? b.opening.line blocks).isSome = true := by
    rw [h.atLine?_eq_find?, Option.isSome_map, List.find?_isSome]
    exact ⟨b, hb, decide_eq_true rfl⟩
  obtain ⟨f, hf⟩ := Option.isSome_iff_exists.mp hfound
  obtain ⟨c, hc, -, rfl⟩ := exists_around?_of_atLine? h hf
  have hown : b.containsLine b.opening.line = true := by
    simpa [containsLine] using h.own b hb
  rw [(h.around?_eq_some_iff _ b).mpr ⟨hb, hown⟩, Option.some.injEq] at hc
  rw [hf, hc]

theorem blockAt?_eq_some_iff (r : DetectionRules) (d : Document) (line : Nat) (b : Block) :
    (Detection.ofDocument r d).blockAt? line = some b ↔ b ∈ (Detection.ofDocument r d).blocks ∧
      b.opening.line ≤ line ∧ line ≤ b.closing.line := by
  rw [Detection.blockAt?, (LineOrdered.ofDocument r d).around?_eq_some_iff line b, containsLine,
    Bool.and_eq_true, decide_eq_true_eq, decide_eq_true_eq]

/-- Wherever blocks go down the page, the searches by bisection find what a walk through all blocks
finds; and the block around a line of a document is the one that it lies in. -/
theorem searches_eq_scans (line : Nat) :
    (∀ blocks, LineOrdered blocks →
      around? line blocks = blocks.find? (fun b => b.containsLine line) ∧
      (blocks.filter fun b => b.containsLine line).length ≤ 1 ∧
      Fold.atLine? line blocks = (blocks.find? fun b => b.opening.line = line).map Fold.ofBlock ∧
      ∀ f, Fold.atLine? line blocks = some f →
        ∃ b, around? line blocks = some b ∧ b.opening.line = line ∧ f = .ofBlock b) ∧
    ∀ r d, let x := Detection.ofDocument r d
      ((around? line x.blocks).isSome = true ↔
        ∃ b ∈ x.blocks, b.opening.line ≤ line ∧ line ≤ b.closing.line) ∧
      ∀ b, x.blockAt? line = some b ↔
        b ∈ x.blocks ∧ b.opening.line ≤ line ∧ line ≤ b.closing.line := by
  refine ⟨fun blocks h => ⟨?_, ?_, ?_, fun f hf => ?_⟩, fun r d => ⟨?_, ?_⟩⟩
  · exact h.around?_eq_find? line
  · exact h.length_filter_containsLine_le line
  · exact h.atLine?_eq_find? line
  · exact exists_around?_of_atLine? h hf
  · rw [Option.isSome_iff_exists]
    exact exists_congr fun b => blockAt?_eq_some_iff r d line b
  · exact blockAt?_eq_some_iff r d line

/-- The inner extents of these blocks are reversed and overlap; the second opens right below the
first, which is a single line. -/
theorem searches_eq_scans_adjacent :
    let first : Block := ⟨⟨2, ⟨9, 4⟩⟩, ⟨2, ⟨0, 30⟩⟩, ⟨5, 1⟩, ⟨7, 3⟩, [⟨8, 2⟩], [], []⟩
    let second : Block := ⟨⟨3, ⟨1, 6⟩⟩, ⟨7, ⟨5, 5⟩⟩, ⟨0, 0⟩, ⟨6, 2⟩, [], [], []⟩
    LineOrdered [first, second] ∧ around? 3 [first, second] = some second ∧
      Fold.atLine? 3 [first, second] = some ⟨3, 7, ⟨6, 2⟩⟩ ∧ around? 8 [first, second] = none := by
  intro first second
  have hordered : LineOrdered [first, second] := ⟨by decide, by decide⟩
  obtain ⟨haround, -, hfold, -⟩ := (searches_eq_scans 3).1 _ hordered
  obtain ⟨hpast, -⟩ := (searches_eq_scans 8).1 _ hordered
  exact ⟨hordered, haround.trans rfl, hfold.trans rfl, hpast.trans rfl⟩

end Block

end MetaBlocks
