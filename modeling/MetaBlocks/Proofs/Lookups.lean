import Mathlib.Data.List.DropRight
import Mathlib.Data.List.ReduceOption
import MetaBlocks.Proofs.EngineRuns

/-!
What an engine remembers, read off the history of its calls. Of all documents only the latest since
the last invalidation counts, and only through its revision and digest, whichever call brought it;
so coming back to an earlier document finds nothing.
-/

set_option autoImplicit false
set_option relaxedAutoImplicit false

namespace MetaBlocks

/-- The document that each call brought, and `none` for calls that make all be forgotten. -/
abbrev History := List (Option Document)

namespace History

variable {digest : List Char → UInt64} {h : History} {d : Document}

def sinceForgotten (h : History) : List Document := (h.rtakeWhile Option.isSome).reduceOption

private theorem sinceForgotten_concat_some (h : History) (d : Document) :
    sinceForgotten (h ++ [some d]) = sinceForgotten h ++ [d] := by
  rw [sinceForgotten, List.rtakeWhile_concat_pos _ _ _ rfl, List.reduceOption_append]
  rfl

private theorem sinceForgotten_concat_none (h : History) : sinceForgotten (h ++ [none]) = [] := by
  rw [sinceForgotten, List.rtakeWhile_concat_neg _ _ _ (by simp)]
  rfl

/-- The latest document since all was forgotten has the revision and the digest of this one. -/
def Repeats (digest : List Char → UInt64) (h : History) (d : Document) : Prop :=
  ∃ d' ∈ (sinceForgotten h).getLast?, d'.revision = d.revision ∧ digest d'.text = digest d.text

private theorem repeats_iff : h.Repeats digest d ↔
    ((sinceForgotten h).getLast?.map fun d' => DocumentKey.mk d'.revision (digest d'.text)) =
      some ⟨d.revision, digest d.text⟩ := by
  simp [Repeats, Option.map_eq_some_iff]

instance : Decidable (h.Repeats digest d) := decidable_of_iff _ repeats_iff.symm

end History

namespace Engine

section Detecting

variable {e : Engine} {d : Document}

theorem remembered?_of_kept {k : Kept} (hk : e.kept = some k) (hkey : k.key = e.keyOf d) :
    e.remembered? d = some k.detection := by
  rw [remembered?, hk]
  exact if_pos hkey

theorem remembered?_of_not_kept (h : e.kept.map Kept.key ≠ some (e.keyOf d)) :
    e.remembered? d = none := by
  rw [remembered?]
  cases hk : e.kept with
  | none => rfl
  | some k =>
    refine if_neg fun hkey => h ?_
    rw [hk, Option.map_some, hkey]

theorem detect_of_kept {k : Kept} (hk : e.kept = some k) (hkey : k.key = e.keyOf d) :
    e.detect d = (k.detection, { e with lastLookup := some .hit }) := by
  rw [detect, remembered?_of_kept hk hkey]

theorem detect_of_not_kept (h : e.kept.map Kept.key ≠ some (e.keyOf d)) :
    e.detect d = (Detection.ofDocument e.settings.detection d,
      { e with
        kept := some ⟨e.keyOf d, Detection.ofDocument e.settings.detection d⟩
        lastLookup := some .miss }) := by
  rw [detect, remembered?_of_not_kept h]

theorem keptKey_detect (e : Engine) (d : Document) :
    (e.detect d).2.kept.map Kept.key = some (e.keyOf d) := by
  by_cases h : e.kept.map Kept.key = some (e.keyOf d)
  · obtain ⟨k, hk, hkey⟩ := Option.map_eq_some_iff.mp h
    rw [detect_of_kept hk hkey]
    exact h
  · rw [detect_of_not_kept h]
    rfl

private theorem lastLookup_detect (e : Engine) (d : Document) :
    (e.detect d).2.lastLookup =
      some (if e.kept.map Kept.key = some (e.keyOf d) then .hit else .miss) := by
  by_cases h : e.kept.map Kept.key = some (e.keyOf d)
  · obtain ⟨k, hk, hkey⟩ := Option.map_eq_some_iff.mp h
    rw [detect_of_kept hk hkey, if_pos h]
  · rw [detect_of_not_kept h, if_neg h]

private theorem digest_detect (e : Engine) (d : Document) : (e.detect d).2.digest = e.digest := by
  unfold detect
  cases e.remembered? d <;> rfl

theorem keyOf_detect (e : Engine) (d d' : Document) : (e.detect d).2.keyOf d' = e.keyOf d' := by
  rw [keyOf, keyOf, digest_detect]

end Detecting

/-- The engine keeps a detection under the key of the latest document of a history, and nothing if
all is forgotten. -/
structure Remembers (digest : List Char → UInt64) (h : History) (e : Engine) : Prop where
  digest_eq : e.digest = digest
  key : e.kept.map Kept.key = (History.sinceForgotten h).getLast?.map
    fun d => ⟨d.revision, digest d.text⟩

namespace Remembers

variable {digest : List Char → UInt64} {h : History} {e : Engine}

private theorem keyOf_eq (hr : e.Remembers digest h) (d : Document) :
    e.keyOf d = ⟨d.revision, digest d.text⟩ := by
  rw [keyOf, hr.digest_eq]

theorem kept_iff (hr : e.Remembers digest h) (d : Document) :
    e.kept.map Kept.key = some (e.keyOf d) ↔ h.Repeats digest d := by
  rw [hr.key, hr.keyOf_eq, History.repeats_iff]

theorem invalidate (hr : e.Remembers digest h) : e.invalidate.Remembers digest (h ++ [none]) := by
  refine ⟨hr.digest_eq, ?_⟩
  rw [History.sinceForgotten_concat_none]
  rfl

theorem of_keyOf (hdigest : e.digest = digest) {d : Document}
    (hkey : e.kept.map Kept.key = some (e.keyOf d)) : e.Remembers digest (h ++ [some d]) := by
  refine ⟨hdigest, ?_⟩
  rw [hkey, keyOf, hdigest, History.sinceForgotten_concat_some, List.getLast?_concat]
  rfl

private theorem detect (hr : e.Remembers digest h) (d : Document) :
    (e.detect d).2.Remembers digest (h ++ [some d]) :=
  of_keyOf ((digest_detect e d).trans hr.digest_eq) (by rw [keptKey_detect, keyOf_detect])

end Remembers

theorem step_of_document (e : Engine) {c : Call} {d : Document} (hc : c.document? = some d) :
    (e.step c).2 = (e.detect d).2 := by
  cases c with
  | invalidate => cases hc
  | _ =>
    obtain rfl := Option.some.inj hc
    rfl

theorem eq_invalidate_of_document {c : Call} (hc : c.document? = none) : c = .invalidate := by
  cases c with
  | invalidate => rfl
  | _ => cases hc

private theorem run_concat (e : Engine) (calls : List Call) (c : Call) :
    (e.run (calls ++ [c])).2 = ((e.run calls).2.step c).2 := by
  induction calls generalizing e with
  | nil => rfl
  | cons c' calls ih => exact ih (e.step c').2

theorem Remembers.step {digest : List Char → UInt64} {h : History} {e : Engine}
    (hr : e.Remembers digest h) (c : Call) :
    (e.step c).2.Remembers digest (h ++ [c.document?]) := by
  cases hc : c.document? with
  | none =>
    rw [eq_invalidate_of_document hc]
    exact hr.invalidate
  | some d =>
    rw [step_of_document e hc]
    exact hr.detect d

theorem remembers_run (s : Settings) (digest : List Char → UInt64) (calls : List Call) :
    (run { settings := s, digest := digest } calls).2.Remembers digest
      (calls.map Call.document?) := by
  induction calls using List.reverseRecOn with
  | nil => exact ⟨rfl, rfl⟩
  | append_singleton calls c ih =>
    rw [run_concat, List.map_append]
    exact ih.step c

def lookupAfter (s : Settings) (digest : List Char → UInt64) (calls : List Call) : Option Lookup :=
  (run { settings := s, digest := digest } calls).2.lastLookup

/-- A call about a document is a hit exactly if the call before it, with no invalidation between,
was about a document of the same revision and digest, and a miss otherwise. Invalidating leaves the
record of the last lookup alone. -/
theorem lookupAfter_concat (s : Settings) (digest : List Char → UInt64) (calls : List Call)
    (c : Call) :
    (∀ d ∈ c.document?,
      (lookupAfter s digest (calls ++ [c]) = some .hit ↔
        History.Repeats digest (calls.map Call.document?) d) ∧
      (lookupAfter s digest (calls ++ [c]) = some .miss ↔
        ¬History.Repeats digest (calls.map Call.document?) d)) ∧
    (c = .invalidate → lookupAfter s digest (calls ++ [c]) = lookupAfter s digest calls) := by
  rw [lookupAfter, run_concat]
  refine ⟨fun d hd => ?_, ?_⟩
  · rw [← (remembers_run s digest calls).kept_iff d, step_of_document _ hd, lastLookup_detect]
    split <;> simp_all
  · rintro rfl
    rfl

theorem lookupAfter_concat_reusedRevision :
    let a : Document := ⟨"---\nSCOPE: a\n---\n".toList, 7⟩
    lookupAfter {} Text.digest (reusedRevision ++ [.intervals a ⟨0, 9⟩]) = some .hit ∧
      lookupAfter {} Text.digest (reusedRevision.take 2 ++ [.foldRegions a]) = some .miss ∧
      lookupAfter {} Text.digest (reusedRevision.take 4 ++ [.invalidate]) =
        lookupAfter {} Text.digest (reusedRevision.take 4) := by
  intro a
  have hagain : History.Repeats Text.digest (reusedRevision.map Call.document?) a := by
    decide +kernel
  have hother : ¬History.Repeats Text.digest ((reusedRevision.take 2).map Call.document?) a := by
    decide +kernel
  have hhit := (lookupAfter_concat {} Text.digest reusedRevision (.intervals a ⟨0, 9⟩)).1 a rfl
  have hmiss := (lookupAfter_concat {} Text.digest (reusedRevision.take 2) (.foldRegions a)).1 a rfl
  exact ⟨hhit.1.mpr hagain, hmiss.2.mpr hother, (lookupAfter_concat {} Text.digest _ _).2 rfl⟩

end Engine

end MetaBlocks
