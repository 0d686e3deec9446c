import MetaBlocks.Processor
import MetaBlocks.Proofs.EngineRuns

/-!
Runs of a processor together with the host that applies its edits. The processor is silent about a
document that it believes the host to show already; it is never wrong about that, so after every
document the host shows exactly what is derived from it.
-/

set_option autoImplicit false
set_option relaxedAutoImplicit false

namespace MetaBlocks

/-- What a host keeps for a document: styled layers, by number, and fold regions. -/
structure Host where
  layers : Nat → Option (List Interval) := fun _ => none
  regions : List FoldRegion := []

namespace Host

def setLayer (h : Host) (layer : Nat) (content : Option (List Interval)) : Host :=
  { h with layers := fun l => if l = layer then content else h.layers l }

@[simp] theorem setLayer_self (h : Host) (layer : Nat) (content : Option (List Interval)) :
    (h.setLayer layer content).layers layer = content := if_pos rfl

private theorem setLayer_of_ne (h : Host) {layer l : Nat} (hl : l ≠ layer)
    (content : Option (List Interval)) : (h.setLayer layer content).layers l = h.layers l :=
  if_neg hl

def isCollapsedLike (h : Host) (r : FoldRegion) : Bool :=
  h.regions.any fun old =>
    old.isCollapsed && old.startLine == r.startLine && old.endLine == r.endLine

/-- The host after an edit. Regions that match a collapsed one stay collapsed if that is asked. -/
def apply (h : Host) : Edit → Host
  | .replaceStyleLayer layer intervals => h.setLayer layer (some intervals)
  | .clearStyleLayer layer => h.setLayer layer none
  | .replaceFoldRegions regions preserveCollapsed =>
    { h with regions := regions.map fun r =>
        if preserveCollapsed && h.isCollapsedLike r then r.collapse else r }
  | .clearFoldRegions => { h with regions := [] }

def setCollapsed (h : Host) (region : Nat) (collapsed : Bool) : Host :=
  { h with regions := h.regions.modify region fun r => { r with isCollapsed := collapsed } }

end Host

/-- What a region is apart from being collapsed or not: its lines and its placeholder. -/
def FoldRegion.outline (r : FoldRegion) : Nat × Nat × List Char :=
  (r.startLine, r.endLine, r.placeholder)

/-- The host shows what is derived from a document, and nothing else. -/
structure Host.Shows (s : Settings) (d : Document) (h : Host) : Prop where
  otherLayers : ∀ l, l ≠ Edit.metadataLayer → h.layers l = none
  /-- Without a block or an orphan there is nothing to show. -/
  empty : (Detection.ofDocument s.detection d).isEmpty = true →
    h.layers Edit.metadataLayer = none ∧ h.regions = []
  /-- The layer holds the intervals of the whole document, and each block has its region. -/
  nonempty : (Detection.ofDocument s.detection d).isEmpty = false →
    h.layers Edit.metadataLayer = some (Interval.ofSpans s.styles
      (Decoration.ofDetection (.ofDocument s.detection d) ⟨0, d.length⟩)) ∧
    h.regions.map FoldRegion.outline = (FoldRegion.ofBlocks s.folding.placeholder
      (Detection.ofDocument s.detection d).blocks).map FoldRegion.outline

namespace Host

variable {s : Settings} {d d' : Document} {h : Host}

private theorem Shows.congr_text (hshows : h.Shows s d) (ht : d.text = d'.text) : h.Shows s d' := by
  have hx := Detection.ofDocument_eq_of_text ht s.detection
  have hlen : d.length = d'.length := by rw [Document.length, Document.length, ht]
  refine ⟨hshows.otherLayers, ?_, ?_⟩
  · rw [← hx]
    exact hshows.empty
  · rw [← hx, ← hlen]
    exact hshows.nonempty

private theorem outline_setCollapsed (h : Host) (region : Nat) (collapsed : Bool) :
    (h.setCollapsed region collapsed).regions.map FoldRegion.outline =
      h.regions.map FoldRegion.outline := by
  refine List.ext_getElem? fun i => ?_
  simp only [setCollapsed, List.getElem?_map, List.getElem?_modify]
  cases h.regions[i]? with
  | none => rfl
  | some r =>
    simp only [Option.map_eq_map, Option.map_some]
    split <;> rfl

private theorem Shows.setCollapsed (hshows : h.Shows s d) (region : Nat) (collapsed : Bool) :
    (h.setCollapsed region collapsed).Shows s d := by
  have houtline := h.outline_setCollapsed region collapsed
  refine ⟨hshows.otherLayers, fun hempty => ?_, fun hnonempty => ?_⟩
  · obtain ⟨hlayer, hregions⟩ := hshows.empty hempty
    rw [hregions, List.map_nil, List.map_eq_nil_iff] at houtline
    exact ⟨hlayer, houtline⟩
  · obtain ⟨hlayer, hregions⟩ := hshows.nonempty hnonempty
    exact ⟨hlayer, houtline.trans hregions⟩

private theorem outline_replaceFoldRegions (h : Host) (regions : List FoldRegion)
    (preserve : Bool) :
    (h.apply (.replaceFoldRegions regions preserve)).regions.map FoldRegion.outline =
      regions.map FoldRegion.outline := by
  rw [apply, List.map_map]
  refine List.map_congr_left fun r _ => ?_
  simp only [Function.comp]
  split <;> rfl

end Host

namespace Processor

def freshEdits (s : Settings) (d : Document) : List Edit :=
  let x := Detection.ofDocument s.detection d
  if x.isEmpty then [.clearStyleLayer Edit.metadataLayer, .clearFoldRegions]
  else
    [.replaceStyleLayer Edit.metadataLayer
        (Interval.ofSpans s.styles (Decoration.ofDetection x ⟨0, d.length⟩)),
      .replaceFoldRegions (FoldRegion.ofBlocks s.folding.placeholder x.blocks)
        s.folding.preserveCollapsed]

variable {s : Settings} {digest : List Char → UInt64} {docs : List Document}

private theorem edits_eq_fresh {e : Engine} (he : e.Coherent s digest docs)
    (hsep : Engine.Separates digest docs) {d : Document} (hd : d ∈ docs) :
    (edits e d).1 = freshEdits s d ∧ (edits e d).2.Coherent s digest docs := by
  obtain ⟨hx, he₁⟩ := he.detect hsep hd
  obtain ⟨hx₁, he₂⟩ := he₁.detect hsep hd
  obtain ⟨hx₂, he₃⟩ := he₂.detect hsep hd
  have hwhole : (⟨0, d.length⟩ : Extent).clamp d.length = ⟨0, d.length⟩ := by simp [Extent.clamp]
  simp only [edits, freshEdits, hx, Engine.intervals_eq, Engine.foldRegions_eq, hwhole]
  split
  · exact ⟨rfl, he₁⟩
  · rw [hx₁, hx₂, he₂.settings_eq, he₃.settings_eq]
    exact ⟨rfl, he₃⟩

/-- The fresh edits make a host show the document, whatever its metadata layer and its regions
held before. -/
theorem shows_of_freshEdits {h : Host} (hother : ∀ l, l ≠ Edit.metadataLayer → h.layers l = none)
    (d : Document) : ((freshEdits s d).foldl Host.apply h).Shows s d := by
  have hset (content : Option (List Interval)) (l : Nat) (hl : l ≠ Edit.metadataLayer) :
      (h.setLayer Edit.metadataLayer content).layers l = none :=
    (h.setLayer_of_ne hl content).trans (hother l hl)
  cases hx : (Detection.ofDocument s.detection d).isEmpty with
  | true =>
    rw [freshEdits, if_pos hx]
    refine ⟨hset none, fun _ => ⟨by simp [Host.apply], rfl⟩, fun hnonempty => ?_⟩
    rw [hx] at hnonempty
    cases hnonempty
  | false =>
    rw [freshEdits, if_neg (by simp [hx])]
    refine ⟨hset _, fun hempty => ?_, fun _ => ⟨by simp [Host.apply], ?_⟩⟩
    · rw [hx] at hempty
      cases hempty
    · exact Host.outline_replaceFoldRegions _ _ _

end Processor

structure Session where
  processor : Processor
  host : Host := {}

namespace Session

/-- What can happen in a session: a document comes in, the processor is reset, or the user of the
host collapses or expands a region. -/
inductive Event where
  | process (d : Document)
  | reset
  | setCollapsed (region : Nat) (collapsed : Bool)
  deriving DecidableEq, Repr, Inhabited

def Event.document? : Event → Option Document
  | process d => some d
  | reset => none
  | setCollapsed _ _ => none

def step (x : Session) : Event → Session
  | .process d =>
    let (edits, p) := x.processor.process d
    ⟨p, edits.foldl Host.apply x.host⟩
  | .reset => ⟨x.processor.reset, x.host⟩
  | .setCollapsed region collapsed => ⟨x.processor, x.host.setCollapsed region collapsed⟩

def run (x : Session) (events : List Event) : Session := events.foldl step x

def new (s : Settings) (digest : List Char → UInt64) : Session :=
  { processor := { engine := { settings := s, digest := digest } } }

/-- Processor and host agree: the engine is coherent, and what was processed last is shown. -/
structure InStep (s : Settings) (digest : List Char → UInt64) (docs : List Document)
    (x : Session) : Prop where
  engine : x.processor.engine.Coherent s digest docs
  otherLayers : ∀ l, l ≠ Edit.metadataLayer → x.host.layers l = none
  shown : ∀ k ∈ x.processor.lastProcessed, ∃ d ∈ docs,
    k = ⟨d.revision, digest d.text⟩ ∧ x.host.Shows s d

variable {s : Settings} {digest : List Char → UInt64} {docs : List Document} {x : Session}

private theorem inStep_new : InStep s digest docs (new s digest) :=
  ⟨⟨rfl, rfl, fun _ hk => by cases hk⟩, fun _ _ => rfl, fun _ hk => by cases hk⟩

private theorem InStep.keyOf_eq (h : x.InStep s digest docs) (d : Document) :
    x.processor.engine.keyOf d = ⟨d.revision, digest d.text⟩ := by
  rw [Engine.keyOf, h.engine.digest_eq]

private theorem InStep.process (h : x.InStep s digest docs) (hsep : Engine.Separates digest docs)
    {d : Document} (hd : d ∈ docs) :
    (x.step (.process d)).InStep s digest docs ∧ (x.step (.process d)).host.Shows s d := by
  by_cases hlast : x.processor.lastProcessed = some (x.processor.engine.keyOf d)
  · -- Nothing is sent. The document shown has the key of this one, hence its text.
    obtain ⟨d', hd', hkey, hshows⟩ := h.shown _ hlast
    rw [h.keyOf_eq, DocumentKey.mk.injEq] at hkey
    have htext : d'.text = d.text := hsep d' hd' d hd hkey.1.symm hkey.2.symm
    simp only [step, Processor.process, if_pos hlast, List.foldl_nil]
    exact ⟨⟨h.engine, h.otherLayers, h.shown⟩, hshows.congr_text htext⟩
  · obtain ⟨hedits, hengine⟩ := Processor.edits_eq_fresh h.engine hsep hd
    have hshows := Processor.shows_of_freshEdits (s := s) h.otherLayers d
    simp only [step, Processor.process, if_neg hlast, hedits]
    refine ⟨⟨hengine, hshows.otherLayers, fun k hk => ⟨d, hd, ?_, hshows⟩⟩, hshows⟩
    rw [← Option.some.inj hk, h.keyOf_eq]

theorem InStep.step (h : x.InStep s digest docs) (hsep : Engine.Separates digest docs)
    (event : Event) (hevent : ∀ d ∈ event.document?, d ∈ docs) :
    (x.step event).InStep s digest docs := by
  cases event with
  | process d => exact (h.process hsep (hevent d rfl)).1
  | reset => exact ⟨h.engine.invalidate, h.otherLayers, fun _ hk => by cases hk⟩
  | setCollapsed region collapsed =>
    refine ⟨h.engine, h.otherLayers, fun k hk => ?_⟩
    obtain ⟨d, hd, hkey, hshows⟩ := h.shown k hk
    exact ⟨d, hd, hkey, hshows.setCollapsed region collapsed⟩

theorem InStep.run (h : x.InStep s digest docs) (hsep : Engine.Separates digest docs)
    (events : List Event) (hevents : ∀ d ∈ events.filterMap Event.document?, d ∈ docs) :
    (x.run events).InStep s digest docs := by
  induction events generalizing x with
  | nil => exact h
  | cons event events ih =>
    refine ih (h.step hsep event fun d hd => ?_) fun d hd => ?_
    · exact hevents d (List.mem_filterMap.mpr ⟨event, List.mem_cons_self, hd⟩)
    · obtain ⟨event', hmem, hdoc⟩ := List.mem_filterMap.mp hd
      exact hevents d (List.mem_filterMap.mpr ⟨event', List.mem_cons_of_mem event hmem, hdoc⟩)

/-- In any session that starts anew, the host shows each document as soon as it came in. -/
theorem shows_run_process (s : Settings) (digest : List Char → UInt64) (events : List Event)
    (d : Document)
    (hsep : Engine.Separates digest ((events ++ [Event.process d]).filterMap Event.document?)) :
    ((new s digest).run (events ++ [.process d])).host.Shows s d := by
  have hbefore := (inStep_new (s := s)).run hsep events fun d' hd' => by
    rw [List.filterMap_append]
    exact List.mem_append_left _ hd'
  rw [run, List.foldl_append]
  refine (hbefore.process hsep ?_).2
  rw [List.filterMap_append]
  exact List.mem_append_right _ (List.mem_singleton.mpr rfl)

/-- A block gives way to an orphan and comes back under one revision; meanwhile a region is
collapsed, the processor reset, and a document without metadata shown twice. -/
def comeAndGo (block : Document) : List Event :=
  [.process block, .setCollapsed 0 true, .process ⟨"---\nSCOPE: a\n".toList, 3⟩, .process block,
    .setCollapsed 0 true, .reset, .process ⟨"plain\n".toList, 4⟩, .process ⟨"plain\n".toList, 4⟩]

theorem shows_run_process_comeAndGo :
    let block : Document := ⟨"---\nSCOPE: a\n---\n".toList, 3⟩
    Engine.Separates Text.digest
        ((comeAndGo block ++ [Event.process block]).filterMap Event.document?) ∧
      ((new {} Text.digest).run (comeAndGo block ++ [.process block])).host.Shows {} block := by
  intro block
  have hsep : Engine.Separates Text.digest
      ((comeAndGo block ++ [Event.process block]).filterMap Event.document?) := by decide +kernel
  exact ⟨hsep, shows_run_process {} Text.digest (comeAndGo block) block hsep⟩

end Session

end MetaBlocks
