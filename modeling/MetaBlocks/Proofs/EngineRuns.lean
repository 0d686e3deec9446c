import MetaBlocks.Engine
import MetaBlocks.Proofs.Viewport

/-!
Runs of the engine. Whatever was asked before and however revisions were reused, every answer is the
one that a fresh detection of the document gives, as long as the digest tells apart the texts that
the run presents under one revision.
-/

set_option autoImplicit false
set_option relaxedAutoImplicit false

namespace MetaBlocks

theorem Detection.ofDocument_eq_of_text {d d' : Document} (h : d.text = d'.text)
    (r : DetectionRules) : ofDocument r d = ofDocument r d' := by
  simp only [ofDocument, Document.sections, Document.kindedLines, Document.lines, h]

namespace Engine

section Questions

variable (e : Engine) (d : Document)

theorem decorate_eq (viewport : Extent) : e.decorate d viewport =
    (Decoration.ofDetection (e.detect d).1 (viewport.clamp d.length), (e.detect d).2) := rfl

theorem intervals_eq (viewport : Extent) : e.intervals d viewport =
    (Interval.ofSpans (e.detect d).2.settings.styles
      (Decoration.ofDetection (e.detect d).1 (viewport.clamp d.length)), (e.detect d).2) := rfl

theorem foldAt?_eq (line : Nat) :
    e.foldAt? d line = (Fold.atLine? line (e.detect d).1.blocks, (e.detect d).2) := rfl

theorem foldRegions_eq : e.foldRegions d =
    (FoldRegion.ofBlocks (e.detect d).2.settings.folding.placeholder (e.detect d).1.blocks,
      (e.detect d).2) := rfl

theorem complete_eq (cursor : Nat) (catalog : Catalog) : e.complete d cursor catalog =
    (Candidate.atCursor d cursor (e.detect d).1.blocks catalog, (e.detect d).2) := rfl

end Questions

inductive Call where
  | detect (d : Document)
  | decorate (d : Document) (viewport : Extent)
  | intervals (d : Document) (viewport : Extent)
  | foldAt (d : Document) (line : Nat)
  | foldRegions (d : Document)
  | complete (d : Document) (cursor : Nat) (catalog : Catalog)
  | invalidate
  deriving DecidableEq, Repr, Inhabited

inductive Answer where
  | detection (x : Detection)
  | spans (ps : List Span)
  | intervals (is : List Interval)
  | fold (f : Option Fold)
  | regions (rs : List FoldRegion)
  | candidates (cs : List Candidate)
  | nothing
  deriving DecidableEq, Repr, Inhabited

def Call.document? : Call → Option Document
  | detect d | decorate d _ | intervals d _ | foldAt d _ | foldRegions d | complete d _ _ => some d
  | invalidate => none

def step (e : Engine) : Call → Answer × Engine
  | .detect d => (e.detect d).map .detection id
  | .decorate d viewport => (e.decorate d viewport).map .spans id
  | .intervals d viewport => (e.intervals d viewport).map .intervals id
  | .foldAt d line => (e.foldAt? d line).map .fold id
  | .foldRegions d => (e.foldRegions d).map .regions id
  | .complete d cursor catalog => (e.complete d cursor catalog).map .candidates id
  | .invalidate => (.nothing, e.invalidate)

def run (e : Engine) : List Call → List Answer × Engine
  | [] => ([], e)
  | c :: cs =>
    let (a, e) := e.step c
    let (as, e) := run e cs
    (a :: as, e)

/-- The answer to a call that a fresh detection gives, with the viewport taken as it is. -/
def freshAnswer (s : Settings) : Call → Answer
  | .detect d => .detection (.ofDocument s.detection d)
  | .decorate d viewport => .spans (Decoration.ofDetection (.ofDocument s.detection d) viewport)
  | .intervals d viewport =>
    .intervals (Interval.ofSpans s.styles
      (Decoration.ofDetection (.ofDocument s.detection d) viewport))
  | .foldAt d line => .fold (Fold.atLine? line (Detection.ofDocument s.detection d).blocks)
  | .foldRegions d =>
    .regions (FoldRegion.ofBlocks s.folding.placeholder
      (Detection.ofDocument s.detection d).blocks)
  | .complete d cursor catalog =>
    .candidates (Candidate.atCursor d cursor (Detection.ofDocument s.detection d).blocks catalog)
  | .invalidate => .nothing

/-- Texts that come under one revision are equal when their digests are. -/
def Separates (digest : List Char → UInt64) (docs : List Document) : Prop :=
  ∀ d ∈ docs, ∀ d' ∈ docs, d.revision = d'.revision → digest d.text = digest d'.text →
    d.text = d'.text

instance (digest : List Char → UInt64) (docs : List Document) :
    Decidable (Separates digest docs) :=
  inferInstanceAs (Decidable (∀ d ∈ docs, ∀ d' ∈ docs, d.revision = d'.revision →
    digest d.text = digest d'.text → d.text = d'.text))

/-- An engine with these settings and this digest that keeps, if anything, the detection of one of
the given documents under that document's key. -/
structure Coherent (s : Settings) (digest : List Char → UInt64) (docs : List Document)
    (e : Engine) : Prop where
  settings_eq : e.settings = s
  digest_eq : e.digest = digest
  kept : ∀ k ∈ e.kept, ∃ d ∈ docs, k.key = ⟨d.revision, digest d.text⟩ ∧
    k.detection = Detection.ofDocument s.detection d

variable {s : Settings} {digest : List Char → UInt64} {docs : List Document} {e : Engine}

theorem Coherent.invalidate (h : Coherent s digest docs e) : Coherent s digest docs e.invalidate :=
  ⟨h.settings_eq, h.digest_eq, fun _ hk => by simp [Engine.invalidate] at hk⟩

private theorem Coherent.remembered (h : Coherent s digest docs e) (hsep : Separates digest docs)
    {d : Document} (hd : d ∈ docs) {x : Detection} (hx : e.remembered? d = some x) :
    x = Detection.ofDocument s.detection d := by
  unfold remembered? at hx
  cases hk : e.kept with
  | none => simp [hk] at hx
  | some k =>
    obtain ⟨d', hd', hkey, hdet⟩ := h.kept k hk
    rw [hk] at hx
    simp only [Option.ite_none_right_eq_some, Option.some.injEq] at hx
    obtain ⟨hsame, rfl⟩ := hx
    rw [hkey, keyOf, h.digest_eq, DocumentKey.mk.injEq] at hsame
    rw [hdet, Detection.ofDocument_eq_of_text (hsep d' hd' d hd hsame.1 hsame.2)]

theorem Coherent.detect (h : Coherent s digest docs e) (hsep : Separates digest docs)
    {d : Document} (hd : d ∈ docs) :
    (e.detect d).1 = Detection.ofDocument s.detection d ∧ Coherent s digest docs (e.detect d).2 := by
  unfold Engine.detect
  cases hx : e.remembered? d with
  | some x => exact ⟨h.remembered hsep hd hx, h.settings_eq, h.digest_eq, h.kept⟩
  | none =>
    refine ⟨by rw [h.settings_eq], h.settings_eq, h.digest_eq, fun k hk => ⟨d, hd, ?_⟩⟩
    obtain rfl := Option.some.inj hk
    exact ⟨congrArg (DocumentKey.mk d.revision) (congrFun h.digest_eq d.text), by rw [h.settings_eq]⟩

/-- One call to a coherent engine gives the fresh answer and leaves a coherent engine. -/
theorem Coherent.step (h : Coherent s digest docs e) (hsep : Separates digest docs) (c : Call)
    (hc : ∀ d ∈ c.document?, d ∈ docs) :
    (e.step c).1 = freshAnswer s c ∧ Coherent s digest docs (e.step c).2 := by
  cases c with
  | invalidate => exact ⟨rfl, h.invalidate⟩
  | detect d =>
    obtain ⟨hx, he⟩ := h.detect hsep (hc d rfl)
    exact ⟨congrArg Answer.detection hx, he⟩
  | decorate d viewport =>
    obtain ⟨hx, he⟩ := h.detect hsep (hc d rfl)
    rw [Engine.step, decorate_eq, hx, Decoration.ofDetection_clamp]
    exact ⟨rfl, he⟩
  | intervals d viewport =>
    obtain ⟨hx, he⟩ := h.detect hsep (hc d rfl)
    rw [Engine.step, intervals_eq, hx, he.settings_eq, Decoration.ofDetection_clamp]
    exact ⟨rfl, he⟩
  | foldAt d line =>
    obtain ⟨hx, he⟩ := h.detect hsep (hc d rfl)
    rw [Engine.step, foldAt?_eq, hx]
    exact ⟨rfl, he⟩
  | foldRegions d =>
    obtain ⟨hx, he⟩ := h.detect hsep (hc d rfl)
    rw [Engine.step, foldRegions_eq, hx, he.settings_eq]
    exact ⟨rfl, he⟩
  | complete d cursor catalog =>
    obtain ⟨hx, he⟩ := h.detect hsep (hc d rfl)
    rw [Engine.step, complete_eq, hx]
    exact ⟨rfl, he⟩

theorem Coherent.run (h : Coherent s digest docs e) (hsep : Separates digest docs)
    (calls : List Call) (hcalls : ∀ d ∈ calls.filterMap Call.document?, d ∈ docs) :
    (e.run calls).1 = calls.map (freshAnswer s) := by
  induction calls generalizing e with
  | nil => rfl
  | cons c cs ih =>
    obtain ⟨ha, he⟩ := h.step hsep c fun d hd => hcalls d
      (List.mem_filterMap.mpr ⟨c, List.mem_cons_self, hd⟩)
    have hrest : ∀ d ∈ cs.filterMap Call.document?, d ∈ docs := by
      intro d hd
      obtain ⟨c', hc', hdoc⟩ := List.mem_filterMap.mp hd
      exact hcalls d (List.mem_filterMap.mpr ⟨c', List.mem_cons_of_mem c hc', hdoc⟩)
    change (e.step c).1 :: ((e.step c).2.run cs).1 = _
    rw [ha, ih he hrest, List.map_cons]

/-- In any run of a new engine every answer is the fresh one. -/
theorem run_eq_fresh (s : Settings) (digest : List Char → UInt64) (calls : List Call)
    (hsep : Separates digest (calls.filterMap Call.document?)) :
    (run { settings := s, digest := digest } calls).1 = calls.map (freshAnswer s) := by
  have h : Coherent s digest (calls.filterMap Call.document?)
      { settings := s, digest := digest } := ⟨rfl, rfl, fun _ hk => by cases hk⟩
  exact h.run hsep calls fun _ hd => hd

/-- Two texts under one revision, asked about in turns, with viewports that are reversed or reach
past the end. -/
def reusedRevision : List Call :=
  let a : Document := ⟨"---\nSCOPE: a\n---\n".toList, 7⟩
  let b : Document := ⟨"x\n---\nk: 1\n---".toList, 7⟩
  [.detect a, .decorate b ⟨0, 99⟩, .decorate a ⟨9, 2⟩, .intervals a ⟨3, 99⟩, .invalidate,
    .foldAt b 2, .foldRegions a, .complete a 11 []]

theorem run_eq_fresh_reusedRevision :
    Separates Text.digest (reusedRevision.filterMap Call.document?) ∧
      (run { settings := {}, digest := Text.digest } reusedRevision).1 =
        reusedRevision.map (freshAnswer {}) :=
  have hsep : Separates Text.digest (reusedRevision.filterMap Call.document?) := by decide +kernel
  ⟨hsep, run_eq_fresh {} Text.digest reusedRevision hsep⟩

end Engine

end MetaBlocks
