import MetaBlocks.Proofs.HostRuns
import MetaBlocks.Proofs.Lookups

/-!
Runs of a processor. It knows by the key of its last document, and its engine by the key of the kept
detection, what was seen last; the two keys are always the same. So whatever is not skipped is
scanned, and scanned once, however often the engine is asked on the way.
-/

set_option autoImplicit false
set_option relaxedAutoImplicit false

namespace MetaBlocks

/-! The engine and the processor with the scan of a document as an effect. -/

section Scanning

variable {m : Type → Type} [Monad m] (scan : DetectionRules → Document → m Detection)

namespace Engine

def detectBy (e : Engine) (d : Document) : m (Detection × Engine) :=
  match e.remembered? d with
  | some x => pure (x, { e with lastLookup := some .hit })
  | none => do
    let x ← scan e.settings.detection d
    return (x, { e with kept := some ⟨e.keyOf d, x⟩, lastLookup := some .miss })

def decorateBy (e : Engine) (d : Document) (viewport : Extent) : m (List Span × Engine) := do
  let (x, e) ← e.detectBy scan d
  return (Decoration.ofDetection x (viewport.clamp d.length), e)

def intervalsBy (e : Engine) (d : Document) (viewport : Extent) : m (List Interval × Engine) := do
  let (spans, e) ← e.decorateBy scan d viewport
  return (Interval.ofSpans e.settings.styles spans, e)

def foldRegionsBy (e : Engine) (d : Document) : m (List FoldRegion × Engine) := do
  let (x, e) ← e.detectBy scan d
  return (FoldRegion.ofBlocks e.settings.folding.placeholder x.blocks, e)

end Engine

namespace Processor

def editsBy (e : Engine) (d : Document) : m (List Edit × Engine) := do
  let (x, e) ← e.detectBy scan d
  if x.isEmpty then return ([.clearStyleLayer Edit.metadataLayer, .clearFoldRegions], e)
  else
    let (intervals, e) ← e.intervalsBy scan d ⟨0, d.length⟩
    let (regions, e) ← e.foldRegionsBy scan d
    return ([.replaceStyleLayer Edit.metadataLayer intervals,
      .replaceFoldRegions regions e.settings.folding.preserveCollapsed], e)

def processBy (p : Processor) (d : Document) : m (List Edit × Processor) :=
  if p.lastProcessed = some (p.engine.keyOf d) then
    return ([], { p with lastMode := some .skipped })
  else do
    let mode := if p.lastProcessed.isNone then UpdateMode.initial else .fullRescan
    let (edits, e) ← editsBy scan p.engine d
    return (edits, ⟨e, some (p.engine.keyOf d), some mode⟩)

private theorem processBy_id (p : Processor) (d : Document) :
    Id.run (p.processBy Detection.ofDocument d) = p.process d := rfl

end Processor

end Scanning

/-- A scan that writes into a log what it scans. -/
def Detection.logged (r : DetectionRules) (d : Document) :
    StateM (List (DetectionRules × Document)) Detection := do
  modify (· ++ [(r, d)])
  return ofDocument r d

private theorem run_bind_of_run {σ α β : Type} {x : StateM σ α} {f : α → StateM σ β} {s s' : σ}
    {a : α} (h : x.run s = (a, s')) : (x >>= f).run s = (f a).run s' := by
  rw [StateT.run_bind, h]
  rfl

namespace Engine

variable (e : Engine) (d : Document) (log : List (DetectionRules × Document))

def scans : List (DetectionRules × Document) :=
  if e.kept.map Kept.key = some (e.keyOf d) then [] else [(e.settings.detection, d)]

private theorem scans_detect : (e.detect d).2.scans d = [] := by
  rw [scans, keptKey_detect, keyOf_detect, if_pos rfl]

private theorem detectBy_logged :
    (e.detectBy Detection.logged d).run log = (e.detect d, log ++ e.scans d) := by
  by_cases h : e.kept.map Kept.key = some (e.keyOf d)
  · obtain ⟨k, hk, hkey⟩ := Option.map_eq_some_iff.mp h
    rw [scans, if_pos h, detectBy, detect, remembered?_of_kept hk hkey, List.append_nil]
    rfl
  · rw [scans, if_neg h, detectBy, detect, remembered?_of_not_kept h]
    rfl

private theorem decorateBy_logged (viewport : Extent) :
    (e.decorateBy Detection.logged d viewport).run log =
      (e.decorate d viewport, log ++ e.scans d) := by
  rw [decorateBy, run_bind_of_run (e.detectBy_logged d log)]
  rfl

private theorem intervalsBy_logged (viewport : Extent) :
    (e.intervalsBy Detection.logged d viewport).run log =
      (e.intervals d viewport, log ++ e.scans d) := by
  rw [intervalsBy, run_bind_of_run (e.decorateBy_logged d log viewport)]
  rfl

private theorem foldRegionsBy_logged :
    (e.foldRegionsBy Detection.logged d).run log = (e.foldRegions d, log ++ e.scans d) := by
  rw [foldRegionsBy, run_bind_of_run (e.detectBy_logged d log)]
  rfl

end Engine

namespace Processor

private theorem editsBy_logged (e : Engine) (d : Document)
    (log : List (DetectionRules × Document)) :
    (editsBy Detection.logged e d).run log = (edits e d, log ++ e.scans d) := by
  rcases hdetect : e.detect d with ⟨x, e'⟩
  -- only the first of the three questions can take a scan: after it the detection is kept
  have hkept : e'.scans d = [] := by
    rw [← e.scans_detect d, hdetect]
  have hagain : (e'.intervals d ⟨0, d.length⟩).2.scans d = [] := e'.scans_detect d
  rw [editsBy, run_bind_of_run (e.detectBy_logged d log), edits, hdetect]
  by_cases hx : x.isEmpty = true
  · simp only [if_pos hx]
    rfl
  · simp only [if_neg hx]
    rw [run_bind_of_run (e'.intervalsBy_logged d _ _), hkept, List.append_nil,
      run_bind_of_run (Engine.foldRegionsBy_logged _ d _), hagain, List.append_nil]
    rfl

private theorem processBy_logged (p : Processor) (d : Document)
    (log : List (DetectionRules × Document)) :
    (p.processBy Detection.logged d).run log = (p.process d,
      log ++ if p.lastProcessed = some (p.engine.keyOf d) then [] else p.engine.scans d) := by
  by_cases hlast : p.lastProcessed = some (p.engine.keyOf d)
  · rw [processBy, process, if_pos hlast, if_pos hlast, if_pos hlast, List.append_nil]
    rfl
  · rw [processBy, process, if_neg hlast, if_neg hlast, if_neg hlast,
      run_bind_of_run (editsBy_logged p.engine d log)]
    rfl

private theorem edits_of_not_kept {e : Engine} {d : Document}
    (h : e.kept.map Kept.key ≠ some (e.keyOf d)) :
    let x := Detection.ofDocument e.settings.detection d
    edits e d = (freshEdits e.settings d,
      { e with
        kept := some ⟨e.keyOf d, x⟩
        lastLookup := some (if x.isEmpty then .miss else .hit) }) := by
  intro x
  let k : Kept := ⟨e.keyOf d, x⟩
  let missed : Engine := { e with kept := some k, lastLookup := some .miss }
  let hit : Engine := { e with kept := some k, lastLookup := some .hit }
  have hfirst : e.detect d = (x, missed) := Engine.detect_of_not_kept h
  have hsecond : missed.detect d = (x, hit) := Engine.detect_of_kept (k := k) rfl rfl
  have hthird : hit.detect d = (x, hit) := Engine.detect_of_kept (k := k) rfl rfl
  have hwhole : (⟨0, d.length⟩ : Extent).clamp d.length = ⟨0, d.length⟩ := by simp [Extent.clamp]
  simp only [edits, hfirst, Engine.intervals_eq, hsecond, Engine.foldRegions_eq, hthird, hwhole]
  by_cases hx : x.isEmpty = true
  · rw [if_pos hx, if_pos hx, freshEdits, if_pos hx]
  · rw [if_neg hx, if_neg hx, freshEdits, if_neg hx]

inductive Call where
  | process (d : Document)
  | reset
  deriving DecidableEq, Repr, Inhabited

def Call.document? : Call → Option Document
  | process d => some d
  | reset => none

def after (p : Processor) : Call → Processor
  | .process d => (p.process d).2
  | .reset => p.reset

def run (p : Processor) (calls : List Call) : Processor := calls.foldl after p

/-- The processor and its engine both know the latest document of a history by the same key. -/
structure InTune (s : Settings) (digest : List Char → UInt64) (h : History) (p : Processor) :
    Prop where
  settings_eq : p.engine.settings = s
  remembers : p.engine.Remembers digest h
  processed : p.lastProcessed = p.engine.kept.map Kept.key

/-- A call that does nothing: no edits, no scan, and the engine stays as it is. -/
structure Skips (p : Processor) (d : Document) : Prop where
  edits : (p.process d).1 = []
  mode : (p.process d).2.lastMode = some .skipped
  engine : (p.process d).2.engine = p.engine
  scans : ∀ log, (p.processBy Detection.logged d).run log = (p.process d, log)

/-- A call that scans the document once and sends two edits; `earlier` are the documents that came
in since the last reset. -/
structure Rescans (s : Settings) (earlier : List Document) (p : Processor) (d : Document) :
    Prop where
  edits : (p.process d).1.length = 2
  clears : (p.process d).1 = [.clearStyleLayer Edit.metadataLayer, .clearFoldRegions] ↔
    (Detection.ofDocument s.detection d).isEmpty = true
  replaces : (∃ intervals regions preserve, (p.process d).1 =
      [.replaceStyleLayer Edit.metadataLayer intervals, .replaceFoldRegions regions preserve]) ↔
    (Detection.ofDocument s.detection d).isEmpty = false
  scans : ∀ log, (p.processBy Detection.logged d).run log =
    (p.process d, log ++ [(s.detection, d)])
  initial : (p.process d).2.lastMode = some .initial ↔ earlier = []
  fullRescan : (p.process d).2.lastMode = some .fullRescan ↔ earlier ≠ []
  miss : (p.process d).2.engine.lastLookup = some .miss ↔
    (Detection.ofDocument s.detection d).isEmpty = true
  hit : (p.process d).2.engine.lastLookup = some .hit ↔
    (Detection.ofDocument s.detection d).isEmpty = false

namespace InTune

variable {s : Settings} {digest : List Char → UInt64} {h : History} {p : Processor}

private theorem lastProcessed_iff (ht : p.InTune s digest h) (d : Document) :
    p.lastProcessed = some (p.engine.keyOf d) ↔ h.Repeats digest d := by
  rw [ht.processed, ht.remembers.kept_iff]

private theorem lastProcessed_eq_none_iff (ht : p.InTune s digest h) :
    p.lastProcessed = none ↔ History.sinceForgotten h = [] := by
  rw [ht.processed, ht.remembers.key, Option.map_eq_none_iff, List.getLast?_eq_none_iff]

private theorem skips (ht : p.InTune s digest h) {d : Document} (hd : h.Repeats digest d) :
    p.Skips d := by
  have hlast := (ht.lastProcessed_iff d).mpr hd
  have hprocess : p.process d = ([], { p with lastMode := some .skipped }) := if_pos hlast
  refine ⟨by rw [hprocess], by rw [hprocess], by rw [hprocess], fun log => ?_⟩
  rw [processBy_logged, if_pos hlast, List.append_nil]

private theorem not_kept (ht : p.InTune s digest h) {d : Document} (hd : ¬h.Repeats digest d) :
    p.engine.kept.map Kept.key ≠ some (p.engine.keyOf d) := by
  rw [ne_eq, ht.remembers.kept_iff]
  exact hd

private theorem process_eq (ht : p.InTune s digest h) {d : Document} (hd : ¬h.Repeats digest d) :
    let x := Detection.ofDocument s.detection d
    p.process d = (freshEdits s d,
      { engine := { p.engine with
          kept := some ⟨p.engine.keyOf d, x⟩
          lastLookup := some (if x.isEmpty then .miss else .hit) }
        lastProcessed := some (p.engine.keyOf d)
        lastMode := some (if History.sinceForgotten h = [] then .initial else .fullRescan) }) := by
  intro x
  have hlast : ¬p.lastProcessed = some (p.engine.keyOf d) := by
    rw [ht.lastProcessed_iff]
    exact hd
  have hedits := edits_of_not_kept (ht.not_kept hd)
  have hmode : (if p.lastProcessed.isNone then UpdateMode.initial else .fullRescan) =
      if History.sinceForgotten h = [] then .initial else .fullRescan := by
    simp only [Option.isNone_iff_eq_none, ht.lastProcessed_eq_none_iff]
  obtain rfl := ht.settings_eq
  rw [process, if_neg hlast, hmode, hedits]

private theorem rescans (ht : p.InTune s digest h) {d : Document} (hd : ¬h.Repeats digest d) :
    p.Rescans s (History.sinceForgotten h) d := by
  have hprocess := ht.process_eq hd
  have hscans : p.engine.scans d = [(s.detection, d)] := by
    rw [Engine.scans, if_neg (ht.not_kept hd), ht.settings_eq]
  constructor
  case scans =>
    intro log
    rw [processBy_logged, if_neg (fun hp => hd ((ht.lastProcessed_iff d).mp hp)), hscans]
  all_goals
    simp only [hprocess, freshEdits]
    cases (Detection.ofDocument s.detection d).isEmpty <;> simp

private protected theorem process (ht : p.InTune s digest h) (d : Document) :
    (p.process d).2.InTune s digest (h ++ [some d]) := by
  by_cases hd : h.Repeats digest d
  · have hskip := ht.skips hd
    have hkey := (ht.remembers.kept_iff d).mpr hd
    have hlast : (p.process d).2.lastProcessed = p.lastProcessed := by
      rw [process, if_pos ((ht.lastProcessed_iff d).mpr hd)]
    refine ⟨?_, ?_, ?_⟩
    · rw [hskip.engine, ht.settings_eq]
    · rw [hskip.engine]
      exact .of_keyOf ht.remembers.digest_eq hkey
    · rw [hskip.engine, hlast, ht.processed]
  · rw [ht.process_eq hd]
    refine ⟨ht.settings_eq, .of_keyOf ?_ rfl, rfl⟩
    exact ht.remembers.digest_eq

private protected theorem reset (ht : p.InTune s digest h) :
    p.reset.InTune s digest (h ++ [none]) :=
  ⟨ht.settings_eq, ht.remembers.invalidate, rfl⟩

private protected theorem after (ht : p.InTune s digest h) (c : Call) :
    (p.after c).InTune s digest (h ++ [c.document?]) := by
  cases c with
  | process d => exact ht.process d
  | reset => exact ht.reset

end InTune

theorem inTune_run (s : Settings) (digest : List Char → UInt64) (calls : List Call) :
    (run { engine := { settings := s, digest := digest } } calls).InTune s digest
      (calls.map Call.document?) := by
  induction calls using List.reverseRecOn with
  | nil => exact ⟨rfl, ⟨rfl, rfl⟩, rfl⟩
  | append_singleton calls c ih =>
    rw [run, List.foldl_append, List.map_append]
    exact ih.after c

/-- In every state that calls lead to, the processor and its engine hold the same key. So a document
is skipped exactly if it repeats the latest one since the last reset, and is otherwise scanned once
and answered by two edits. -/
theorem process_after_run (s : Settings) (digest : List Char → UInt64) (calls : List Call)
    (d : Document) :
    let p := run { engine := { settings := s, digest := digest } } calls
    let h : History := calls.map Call.document?
    (∀ key, p.lastProcessed = some key ↔ ∃ k ∈ p.engine.kept, k.key = key) ∧
    (p.Skips d ↔ h.Repeats digest d) ∧
    (¬h.Repeats digest d → p.Rescans s h.sinceForgotten d) := by
  intro p h
  have ht : p.InTune s digest h := inTune_run s digest calls
  refine ⟨fun key => ?_, ⟨fun hskip => ?_, ht.skips⟩, ht.rescans⟩
  · rw [ht.processed, Option.map_eq_some_iff]
    rfl
  · by_contra hd
    have htwo := (ht.rescans hd).edits
    rw [hskip.edits] at htwo
    cases htwo

theorem process_after_run_sameRevision :
    let block : Document := ⟨"---\nSCOPE: a\n---\n".toList, 3⟩
    let plain : Document := ⟨"plain\n".toList, 3⟩
    let p := run { engine := { settings := {}, digest := Text.digest } }
      [.process block, .reset, .process plain, .process plain]
    p.Skips plain ∧ p.Rescans {} [plain, plain] block := by
  intro block plain p
  let calls : List Call := [.process block, .reset, .process plain, .process plain]
  have hplain : History.Repeats Text.digest (calls.map Call.document?) plain := by decide +kernel
  have hblock : ¬History.Repeats Text.digest (calls.map Call.document?) block := by decide +kernel
  obtain ⟨-, hskips, -⟩ := process_after_run {} Text.digest calls plain
  obtain ⟨-, -, hrescans⟩ := process_after_run {} Text.digest calls block
  exact ⟨hskips.mpr hplain, hrescans hblock⟩

end Processor

end MetaBlocks
