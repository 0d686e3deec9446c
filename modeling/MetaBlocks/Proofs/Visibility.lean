import MetaBlocks.Proofs.Restriction

/-!
Which blocks a viewport shows. Where the ends of the blocks go down the text, bisection and walking
on find exactly the blocks that meet the viewport, however their inner extents lie. A block of a
document is made of whole lines, so it meets a viewport exactly when the background of one of its
lines is shown there.
-/

set_option autoImplicit false
set_option relaxedAutoImplicit false

namespace MetaBlocks

private theorem Extent.overlaps_iff_exists {e f : Extent} (he : e.start < e.stop)
    (hf : f.start < f.stop) :
    e.overlaps f = true ↔ ∃ o, (e.start ≤ o ∧ o < e.stop) ∧ f.start ≤ o ∧ o < f.stop := by
  simp only [overlaps, Bool.and_eq_true, decide_eq_true_eq]
  constructor
  · rintro ⟨hleft, hright⟩
    exact ⟨max e.start f.start, by omega, by omega⟩
  · rintro ⟨o, hin, hin'⟩
    omega

private theorem Declaration.kind_ne_background {c : Declaration} {p : Span} (h : p ∈ c.spans) :
    p.kind ≠ .blockBackground := by
  simp only [spans, List.mem_cons, List.not_mem_nil, or_false] at h
  rcases h with rfl | rfl
  · cases hkeyword : c.keyword <;> simp [SpanKind.ofKeyword]
  · simp

private theorem Entry.kind_ne_background {c : Entry} {p : Span} (h : p ∈ c.spans) :
    p.kind ≠ .blockBackground := by
  simp only [spans, List.mem_cons, List.not_mem_nil, or_false] at h
  rcases h with rfl | rfl
  · simp
  · cases htype : c.type <;> simp [SpanKind.ofValueType]

namespace Block

def backgrounds (b : Block) : List Span := b.spans.filter fun p => p.kind = .blockBackground

private theorem mem_backgrounds_iff {b : Block} {p : Span} :
    p ∈ b.backgrounds ↔ ∃ e ∈ b.lineExtents, ⟨e, .blockBackground⟩ = p := by
  rw [backgrounds, List.mem_filter, decide_eq_true_eq]
  constructor
  · rintro ⟨hp, hkind⟩
    simp only [spans, List.mem_append, List.mem_map, List.mem_cons, List.not_mem_nil, or_false,
      List.mem_flatMap] at hp
    rcases hp with ((hline | rfl | rfl) | ⟨c, -, hp⟩) | ⟨c, -, hp⟩
    · exact hline
    · cases hkind
    · cases hkind
    · exact absurd hkind (Declaration.kind_ne_background hp)
    · exact absurd hkind (Entry.kind_ne_background hp)
  · rintro ⟨e, he, rfl⟩
    exact ⟨by simp [spans, he], rfl⟩

variable {r : DetectionRules} {d : Document} {a b : Block}

private theorem intersects_iff_exists_line (h : b ∈ (Detection.ofDocument r d).blocks)
    {viewport : Extent} (hview : viewport.start < viewport.stop) :
    b.intersects viewport = true ↔ ∃ e ∈ b.lineExtents, e.overlaps viewport = true := by
  rw [intersects, Extent.overlaps_iff_exists (extent_nonempty h) hview]
  constructor
  · rintro ⟨o, hblock, ho⟩
    obtain ⟨e, he, hline⟩ := (mem_extent_iff h o).mp hblock
    have hnonempty := nonempty_of_mem_lineExtents h he
    exact ⟨e, he, (Extent.overlaps_iff_exists hnonempty hview).mpr ⟨o, hline, ho⟩⟩
  · rintro ⟨e, he, hoverlaps⟩
    have hnonempty := nonempty_of_mem_lineExtents h he
    obtain ⟨o, hline, ho⟩ := (Extent.overlaps_iff_exists hnonempty hview).mp hoverlaps
    exact ⟨o, (mem_extent_iff h o).mpr ⟨e, he, hline⟩, ho⟩

private theorem eq_of_common (ha : a ∈ (Detection.ofDocument r d).blocks)
    (hb : b ∈ (Detection.ofDocument r d).blocks) {o : Nat}
    (hoa : a.extent.start ≤ o ∧ o < a.extent.stop) (hob : b.extent.start ≤ o ∧ o < b.extent.stop) :
    a = b := by
  -- Of two different blocks one comes first in the list, and it ends before the other starts.
  have hapart := Detection.blocks_apart r d
  exact List.Pairwise.forall_of_forall_of_flip
    (R := fun a b : Block => (a.extent.start ≤ o ∧ o < a.extent.stop) →
      (b.extent.start ≤ o ∧ o < b.extent.stop) → a = b)
    (fun _ _ _ _ => rfl) (hapart.imp fun _ _ _ => by omega) (hapart.imp fun _ _ _ => by omega)
    ha hb hoa hob

end Block

namespace Decoration

variable {r : DetectionRules} {d : Document} {viewport : Extent}

private theorem mem_ofBlocks_iff {p : Span} :
    p ∈ ofBlocks (Detection.ofDocument r d).blocks viewport ↔
      (∃ b ∈ (Detection.ofDocument r d).blocks, p ∈ b.spans) ∧ isShown viewport p = true := by
  rw [ofBlocks_eq, (arrange_perm _).mem_iff, List.mem_filter, List.mem_flatMap]

theorem any_background_shown {b : Block} (h : b ∈ (Detection.ofDocument r d).blocks)
    (hview : viewport.start < viewport.stop) :
    (b.backgrounds.any fun p => p ∈ ofBlocks (Detection.ofDocument r d).blocks viewport) =
      b.intersects viewport := by
  rw [Bool.eq_iff_iff, List.any_eq_true, Block.intersects_iff_exists_line h hview]
  constructor
  · rintro ⟨p, hp, hshown⟩
    obtain ⟨e, he, rfl⟩ := Block.mem_backgrounds_iff.mp hp
    have hmeets := (mem_ofBlocks_iff.mp (of_decide_eq_true hshown)).2
    simp only [isShown, Span.intersects, Bool.and_eq_true] at hmeets
    exact ⟨e, he, hmeets.2.2⟩
  · rintro ⟨e, he, hoverlaps⟩
    have hbackground : ⟨e, .blockBackground⟩ ∈ b.backgrounds :=
      Block.mem_backgrounds_iff.mpr ⟨e, he, rfl⟩
    refine ⟨_, hbackground, decide_eq_true (mem_ofBlocks_iff.mpr ⟨?_, ?_⟩)⟩
    · exact ⟨b, h, (List.mem_filter.mp hbackground).1⟩
    · have hline := Block.nonempty_of_mem_lineExtents h he
      simp only [isShown, Span.intersects, Extent.isEmpty, Bool.and_eq_true, Bool.not_eq_true',
        decide_eq_false_iff_not, Nat.not_le]
      exact ⟨hline, hview, hoverlaps⟩

private theorem existsUnique_of_background {p : Span}
    (h : p ∈ ofBlocks (Detection.ofDocument r d).blocks viewport) (hkind : p.kind = .blockBackground) :
    ∃! b, b ∈ (Detection.ofDocument r d).blocks ∧ p ∈ b.backgrounds := by
  obtain ⟨⟨b, hb, hp⟩, -⟩ := mem_ofBlocks_iff.mp h
  have hown : p ∈ b.backgrounds := List.mem_filter.mpr ⟨hp, decide_eq_true hkind⟩
  refine ⟨b, ⟨hb, hown⟩, ?_⟩
  rintro c ⟨hc, hother⟩
  obtain ⟨e, he, rfl⟩ := Block.mem_backgrounds_iff.mp hown
  obtain ⟨f, hf, heq⟩ := Block.mem_backgrounds_iff.mp hother
  obtain rfl : f = e := congrArg Span.extent heq
  have hline := Block.nonempty_of_mem_lineExtents hb he
  exact Block.eq_of_common hc hb ((Block.mem_extent_iff hc _).mpr ⟨f, hf, Nat.le_refl _, hline⟩)
    ((Block.mem_extent_iff hb _).mpr ⟨f, he, Nat.le_refl _, hline⟩)

/-- Where starts and ends of blocks go down the text, the visible blocks are in order those that meet
the viewport, and none if it is empty or reversed. The visible blocks of a document are those with a
background among the spans shown, each of which belongs to one block. -/
theorem visibleBlocks_meet_viewport (viewport : Extent) :
    (∀ blocks : List Block, blocks.Pairwise (fun a b => a.extent.start ≤ b.extent.start) →
      blocks.Pairwise (fun a b => a.extent.stop ≤ b.extent.stop) →
      viewport.start < viewport.stop →
      visibleBlocks blocks viewport = blocks.filter fun b => b.intersects viewport) ∧
    (∀ blocks, viewport.stop ≤ viewport.start → visibleBlocks blocks viewport = []) ∧
    ∀ r d, viewport.start < viewport.stop →
      let blocks := (Detection.ofDocument r d).blocks
      visibleBlocks blocks viewport = (blocks.filter fun b => b.intersects viewport) ∧
      visibleBlocks blocks viewport =
        (blocks.filter fun b => b.backgrounds.any fun p => p ∈ ofBlocks blocks viewport) ∧
      ∀ p ∈ ofBlocks blocks viewport, p.kind = .blockBackground →
        ∃! b, b ∈ blocks ∧ p ∈ b.backgrounds := by
  have hfilter (hview : viewport.start < viewport.stop) {blocks : List Block}
      (h : Block.Descending blocks) :
      visibleBlocks blocks viewport = blocks.filter fun b => b.intersects viewport :=
    visibleBlocks_eq_filter h (decide_eq_false (Nat.not_le_of_lt hview))
  refine ⟨?_, ?_, ?_⟩
  · intro blocks hstart hstop hview
    exact hfilter hview (hstart.and hstop)
  · intro blocks hempty
    have hview : viewport.isEmpty = true := decide_eq_true hempty
    rw [visibleBlocks, if_pos hview]
  · intro r d hview blocks
    have hmeet := hfilter hview (Detection.blocks_descending r d)
    refine ⟨hmeet, hmeet.trans ?_, fun p hp hkind => existsUnique_of_background hp hkind⟩
    exact List.filter_congr fun b hb => (any_background_shown hb hview).symm

/-- The first and the last of these blocks only touch the viewport, and the one in the middle is empty
and lies inside it; of two blocks of a document the upper one ends where the viewport starts. -/
theorem visibleBlocks_meet_viewport_touching :
    let block (start stop : Nat) : Block :=
      ⟨⟨1, ⟨start, 0⟩⟩, ⟨1, ⟨9, 2⟩⟩, ⟨5, 1⟩, ⟨7, 3⟩, [⟨8, 2⟩, ⟨40, stop⟩], [], []⟩
    let listed := [block 3 10, block 3 11, block 15 15, block 19 30, block 20 30]
    let d := Document.ofText "---\nSCOPE: a\n---\n---\nx: 1\n---".toList
    let found := (Detection.ofDocument {} d).blocks
    listed.Pairwise (fun a b => a.extent.start ≤ b.extent.start) ∧
      listed.Pairwise (fun a b => a.extent.stop ≤ b.extent.stop) ∧
      visibleBlocks listed ⟨10, 20⟩ = [block 3 11, block 15 15, block 19 30] ∧
      visibleBlocks listed ⟨20, 10⟩ = [] ∧
      visibleBlocks found ⟨17, 99⟩ =
        (found.filter fun b => b.backgrounds.any fun p => p ∈ ofBlocks found ⟨17, 99⟩) ∧
      (visibleBlocks found ⟨17, 99⟩).map (·.opening.line) = [4] := by
  intro block listed d found
  have hstart : listed.Pairwise fun a b => a.extent.start ≤ b.extent.start := by decide
  have hstop : listed.Pairwise fun a b => a.extent.stop ≤ b.extent.stop := by decide
  refine ⟨hstart, hstop, ?_, ?_, ?_, by decide +kernel⟩
  · exact (visibleBlocks_meet_viewport ⟨10, 20⟩).1 listed hstart hstop (by decide)
  · exact (visibleBlocks_meet_viewport ⟨20, 10⟩).2.1 listed (by decide)
  · exact ((visibleBlocks_meet_viewport ⟨17, 99⟩).2.2 {} d (by decide)).2.1

end Decoration

end MetaBlocks
