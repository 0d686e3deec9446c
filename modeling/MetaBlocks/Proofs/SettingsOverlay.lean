import MetaBlocks.Proofs.BlankTexts
import MetaBlocks.Proofs.Integers
import MetaBlocks.Settings.Yaml

/-!
Settings loaded from a YAML text are the defaults with the written fields laid over them. The order
of the fields does not matter, and an unknown or repeated field anywhere is a fault.
-/

set_option autoImplicit false
set_option relaxedAutoImplicit false

namespace MetaBlocks.Yaml

namespace Document

variable {d : Document} {path : Path} {n : Node}

/-- The node says this in a way that leaves its type open or gives it the right one. -/
def SaysTyped (d : Document) (type : String) (n : Node) (s : List Char) : Prop :=
  ∃ m tag style, d.resolve n = .scalar m tag style s ∧
    (style = .plain ∨ style = .literal ∧ tag = some ("tag:yaml.org,2002:" ++ type).toList)

def truthWords : Bool → List String
  | true => ["true", "True", "TRUE"]
  | false => ["false", "False", "FALSE"]

def IsTruth (d : Document) (n : Node) (b : Bool) : Prop :=
  ∃ w ∈ truthWords b, d.SaysTyped "bool" n w.toList

def IsWord (d : Document) (n : Node) (k : UInt32) : Prop :=
  ∃ s, d.SaysTyped "int" n s ∧ Numeral.Writes s k.toNat

def nullWords : List String := ["null", "Null", "NULL", "~"]

/-- A choice is written as its word, without a tag of the document's own, or as such a tag with
nothing behind it. -/
def IsChoice {α : Type} (word : α → String) (d : Document) (n : Node) (a : α) : Prop :=
  (∃ m tag style, d.resolve n = .scalar m tag style (word a).toList ∧
    ∀ t ∈ tag, t.head? ≠ some '!') ∨
  ∃ m style s, d.resolve n = .scalar m (some ('!' :: (word a).toList)) style s ∧
    (s = [] ∨ style = .plain ∧ ∃ w ∈ nullWords, s = w.toList)

end Document

namespace Decode

variable {d : Document} {path : Path} {n : Node}

private theorem mayBe_iff {type : String} {tag : Option (List Char)} {style : ScalarStyle} :
    mayBe type tag style = true ↔
      style = .plain ∨ style = .literal ∧ tag = some ("tag:yaml.org,2002:" ++ type).toList := by
  have hcore : CoreValue.coreTag type = ("tag:yaml.org,2002:" ++ type).toList :=
    String.toList_append.symm
  simp only [mayBe, hcore, Bool.or_eq_true, Bool.and_eq_true, decide_eq_true_eq]

theorem text_ok_iff {s : List Char} : text d path n = .ok s ↔ d.Says n s := by
  unfold text
  constructor
  · intro h
    split at h
    · next m tag style t hn =>
      cases h
      exact ⟨m, tag, style, hn⟩
    · cases h
  · rintro ⟨m, tag, style, hn⟩
    rw [hn]

private theorem boolean?_eq_some_iff {s : List Char} {b : Bool} :
    CoreValue.boolean? s = some b ↔ ∃ w ∈ Document.truthWords b, s = w.toList := by
  unfold CoreValue.boolean?
  simp only [Bool.or_eq_true, beq_iff_eq]
  constructor
  · intro h
    split at h
    · next hs =>
      cases h
      rcases hs with (rfl | rfl) | rfl
      · exact ⟨"true", by decide, rfl⟩
      · exact ⟨"True", by decide, rfl⟩
      · exact ⟨"TRUE", by decide, rfl⟩
    · split at h
      · next hs =>
        cases h
        rcases hs with (rfl | rfl) | rfl
        · exact ⟨"false", by decide, rfl⟩
        · exact ⟨"False", by decide, rfl⟩
        · exact ⟨"FALSE", by decide, rfl⟩
      · cases h
  · rintro ⟨w, hw, rfl⟩
    revert w
    cases b <;> decide

theorem boolean_ok_iff {b : Bool} : boolean d path n = .ok b ↔ d.IsTruth n b := by
  unfold boolean
  dsimp only
  constructor
  · intro h
    split at h
    · next m tag style s hn =>
      split at h
      · next hmay =>
        split at h
        · next hs =>
          cases h
          obtain ⟨w, hw, rfl⟩ := boolean?_eq_some_iff.mp hs
          exact ⟨w, hw, m, tag, style, hn, mayBe_iff.mp hmay⟩
        · cases h
      · cases h
    · cases h
  · rintro ⟨w, hw, m, tag, style, hn, hmay⟩
    simp only [hn, if_pos (mayBe_iff.mpr hmay), boolean?_eq_some_iff.mpr ⟨w, hw, rfl⟩]

theorem word_ok_iff {k : UInt32} : word d path n = .ok k ↔ d.IsWord n k := by
  unfold word
  dsimp only
  constructor
  · intro h
    split at h
    · next m tag style s hn =>
      split at h
      · next hmay =>
        split at h
        · next j hs =>
          split at h
          · next hj =>
            cases h
            refine ⟨s, ⟨m, tag, style, hn, mayBe_iff.mp hmay⟩, ?_⟩
            rw [UInt32.toNat_ofNat_of_lt' hj]
            exact (CoreValue.unsigned?_eq_some_iff.mp hs).2
          · cases h
        · cases h
      · cases h
    · cases h
  · rintro ⟨s, ⟨m, tag, style, hn, hmay⟩, hwritten⟩
    have hsize : k.toNat ≤ UInt64.size - 1 :=
      Nat.le_trans (Nat.le_of_lt k.toNat_lt_size) (by decide)
    have hs := CoreValue.unsigned?_eq_some_iff.mpr ⟨hsize, hwritten⟩
    simp only [hn, if_pos (mayBe_iff.mpr hmay), hs, if_pos k.toNat_lt_size, UInt32.ofNat_toNat]

private theorem localTag?_eq_none_iff {tag : Option (List Char)} :
    localTag? tag = none ↔ ∀ t ∈ tag, t.head? ≠ some '!' := by
  unfold localTag?
  split
  · simp
  · simp
  · next hbang hlocal =>
    refine ⟨fun _ t ht hhead => ?_, fun _ => rfl⟩
    obtain ⟨name, rfl⟩ := List.head?_eq_some_iff.mp hhead
    exact hlocal name ht

private theorem localTag?_eq_some_iff {tag : Option (List Char)} {name : List Char}
    (hne : name ≠ []) (hbang : name ≠ ['!']) :
    localTag? tag = some name ↔ tag = some ('!' :: name) := by
  unfold localTag?
  constructor
  · intro h
    split at h
    · exact absurd (Option.some.inj h).symm hbang
    · rw [Option.some.inj h]
    · cases h
  · rintro rfl
    cases name with
    | nil => exact absurd rfl hne
    | cons c t => rfl

private theorem isNothing_iff {m : Mark} {tag : Option (List Char)} {style : ScalarStyle}
    {s : List Char} : isNothing (.scalar m tag style s) = true ↔
      s = [] ∨ style = .plain ∧ ∃ w ∈ Document.nullWords, s = w.toList := by
  simp [isNothing, CoreValue.isNull, Document.nullWords, or_assoc]

section Choices

variable {α : Type} {choices : List (String × α)} {word : α → String}

private theorem find?_choices_iff (hnodup : (choices.map (·.1)).Nodup)
    (hwords : ∀ w a, (w, a) ∈ choices ↔ w = word a) {name : List Char} {a : α} :
    (choices.find? fun c => c.1.toList = name).map (·.2) = some a ↔ (word a).toList = name := by
  rw [Option.map_eq_some_iff]
  constructor
  · rintro ⟨⟨w, b⟩, hfind, rfl⟩
    obtain ⟨hmem, hname⟩ := (find?_name_eq_some_iff hnodup).mp hfind
    rw [← (hwords w b).mp hmem, hname]
  · intro hname
    exact ⟨(word a, a), (find?_name_eq_some_iff hnodup).mpr ⟨(hwords _ a).mpr rfl, hname⟩, rfl⟩

theorem choice_ok_iff (hnodup : (choices.map (·.1)).Nodup)
    (hwords : ∀ w a, (w, a) ∈ choices ↔ w = word a)
    (hplain : ∀ a, (word a).toList ≠ [] ∧ (word a).toList ≠ ['!']) {a : α} :
    choice choices d path n = .ok a ↔ d.IsChoice word n a := by
  unfold choice
  dsimp only
  constructor
  · intro h
    split at h
    · next name htag =>
      split at h
      · next b hfind =>
        obtain rfl := (find?_choices_iff hnodup hwords).mp hfind
        split at h
        · next hnothing =>
          cases h
          cases hn : d.resolve n with
          | scalar m tag style s =>
            rw [hn] at htag hnothing
            obtain rfl := (localTag?_eq_some_iff (hplain a).1 (hplain a).2).mp htag
            exact .inr ⟨m, style, s, hn, isNothing_iff.mp hnothing⟩
          | sequence | mapping | reference =>
            rw [hn] at hnothing
            cases hnothing
        · cases h
      · split at h <;> cases h
    · next m tag style name htag hn =>
      split at h
      · next b hfind =>
        obtain rfl := (find?_choices_iff hnodup hwords).mp hfind
        cases h
        rw [hn] at htag
        exact .inl ⟨m, tag, style, hn, localTag?_eq_none_iff.mp htag⟩
      · cases h
    · cases h
    · cases h
  · have hfind := (find?_choices_iff hnodup hwords (a := a)).mpr rfl
    rintro (⟨m, tag, style, hn, htag⟩ | ⟨m, style, s, hn, hnothing⟩)
    · simp only [hn, tagOf, localTag?_eq_none_iff.mpr htag, hfind]
    · have htag : localTag? (some ('!' :: (word a).toList)) = some (word a).toList :=
        (localTag?_eq_some_iff (hplain a).1 (hplain a).2).mpr rfl
      simp only [hn, tagOf, htag, hfind, if_pos (isNothing_iff.mpr hnothing)]

end Choices

end Decode

end MetaBlocks.Yaml

namespace MetaBlocks.Settings

open Yaml Yaml.Decode

def neighborWord : Neighbors → String
  | .both => "both"
  | .either => "either"

private theorem neighbors_ok_iff {d : Yaml.Document} {path : Path} {n : Node} {a : Neighbors} :
    choice neighborNames d path n = .ok a ↔ d.IsChoice neighborWord n a := by
  refine choice_ok_iff (by decide) (fun w a => ?_) (fun a => ?_)
  · cases a <;> simp [neighborNames, neighborWord]
  · cases a <;> decide

def detectionColumns : List (Column DetectionRules) := [
  .leaf "rule_neighbors" (·.neighbors) (Document.IsChoice neighborWord),
  .leaf "missing_neighbor_is_blank" (·.missingIsBlank) Document.IsTruth]

def foldingColumns : List (Column FoldingSettings) := [
  .leaf "placeholder" (·.placeholder) Document.Says,
  .leaf "preserve_collapsed" (·.preserveCollapsed) Document.IsTruth]

def styleColumns : List (Column Styles) := [
  .leaf "block_background" (·.blockBackground) Document.IsWord,
  .leaf "delimiter" (·.delimiter) Document.IsWord,
  .leaf "scope_keyword" (·.scopeKeyword) Document.IsWord,
  .leaf "quill_keyword" (·.quillKeyword) Document.IsWord,
  .leaf "identifier" (·.identifier) Document.IsWord,
  .leaf "yaml_key" (·.yamlKey) Document.IsWord,
  .leaf "yaml_string" (·.yamlString) Document.IsWord,
  .leaf "yaml_number" (·.yamlNumber) Document.IsWord,
  .leaf "yaml_boolean" (·.yamlBoolean) Document.IsWord]

def sectionColumns : List (Column Settings) := [
  .group "detection" (·.detection) detectionColumns {},
  .group "folding" (·.folding) foldingColumns {},
  .group "styles" (·.styles) styleColumns {}]

private theorem detectionTable : Table detectionFields detectionColumns := by
  refine ⟨.cons ?_ (.cons ?_ .nil), by decide⟩
  · exact serves_leaf neighbors_ok_iff (fun _ _ => rfl) (by simp [detectionColumns, Column.leaf])
  · exact serves_leaf boolean_ok_iff (fun _ _ => rfl) (by simp [detectionColumns, Column.leaf])

private theorem foldingTable : Table foldingFields foldingColumns := by
  refine ⟨.cons ?_ (.cons ?_ .nil), by decide⟩
  · exact serves_leaf text_ok_iff (fun _ _ => rfl) (by simp [foldingColumns, Column.leaf])
  · exact serves_leaf boolean_ok_iff (fun _ _ => rfl) (by simp [foldingColumns, Column.leaf])

private theorem styleTable : Table styleFields styleColumns := by
  have hserves {name : String} {get : Styles → UInt32} {put : UInt32 → Styles → Styles}
      (hget : ∀ x s, get (put x s) = x)
      (hframe : ∀ c ∈ styleColumns, c.name ≠ name → ∀ x s, c.get (put x s) = c.get s) :
      Serves styleColumns (.of name word put) (.leaf name get Document.IsWord) :=
    serves_leaf word_ok_iff hget hframe
  refine ⟨?_, by decide⟩
  refine .cons (hserves ?_ ?_) (.cons (hserves ?_ ?_) (.cons (hserves ?_ ?_) (.cons (hserves ?_ ?_)
    (.cons (hserves ?_ ?_) (.cons (hserves ?_ ?_) (.cons (hserves ?_ ?_) (.cons (hserves ?_ ?_)
      (.cons (hserves ?_ ?_) .nil))))))))
  all_goals simp [styleColumns, Column.leaf]

private theorem sectionTable : Table sections sectionColumns := by
  refine ⟨.cons ?_ (.cons ?_ (.cons ?_ .nil)), by decide⟩
  · exact serves_group detectionTable (fun _ _ => rfl) (by simp [sectionColumns, Column.group])
  · exact serves_group foldingTable (fun _ _ => rfl) (by simp [sectionColumns, Column.group])
  · exact serves_group styleTable (fun _ _ => rfl) (by simp [sectionColumns, Column.group])

private theorem detectionColumns_complete : Column.Complete detectionColumns := by
  constructor
  · intro c hc
    rcases List.mem_pair.mp hc with rfl | rfl
    · exact Column.definite_leaf (choice neighborNames) neighbors_ok_iff
    · exact Column.definite_leaf boolean boolean_ok_iff
  · rintro ⟨neighbors, missing⟩ ⟨neighbors', missing'⟩ h
    simpa [detectionColumns, Column.leaf] using h

private theorem foldingColumns_complete : Column.Complete foldingColumns := by
  constructor
  · intro c hc
    rcases List.mem_pair.mp hc with rfl | rfl
    · exact Column.definite_leaf text text_ok_iff
    · exact Column.definite_leaf boolean boolean_ok_iff
  · rintro ⟨placeholder, preserve⟩ ⟨placeholder', preserve'⟩ h
    simpa [foldingColumns, Column.leaf] using h

private theorem styleColumns_complete : Column.Complete styleColumns := by
  have hword (name : String) (get : Styles → UInt32) :
      (Column.leaf name get Document.IsWord).Definite := Column.definite_leaf word word_ok_iff
  constructor
  · simp only [styleColumns, List.forall_mem_cons, List.not_mem_nil, hword, true_and]
    exact fun _ h _ => h.elim
  · intro s t h
    cases s
    cases t
    simpa [styleColumns, Column.leaf] using h

private theorem sectionColumns_complete : Column.Complete sectionColumns := by
  constructor
  · intro c hc
    simp only [sectionColumns, List.mem_cons, List.not_mem_nil, or_false] at hc
    rcases hc with rfl | rfl | rfl
    · exact detectionColumns_complete.definite_group
    · exact foldingColumns_complete.definite_group
    · exact styleColumns_complete.definite_group
  · rintro ⟨detection, folding, styles⟩ ⟨detection', folding', styles'⟩ h
    simpa [sectionColumns, Column.group] using h

/-- Whatever a section of this name holds, its keys are known and come once. -/
def NamedIn (d : Yaml.Document) (es : List (Node × Node)) (name : String) (known : List String) :
    Prop :=
  ∀ v inner, d.Gives es name v → d.fields? v = some inner → d.WellKeyed known inner

structure Named (d : Yaml.Document) (es : List (Node × Node)) : Prop where
  root : d.WellKeyed (sectionColumns.map (·.name)) es
  detection : NamedIn d es "detection" (detectionColumns.map (·.name))
  folding : NamedIn d es "folding" (foldingColumns.map (·.name))
  styles : NamedIn d es "styles" (styleColumns.map (·.name))

/-- A section of this name is a mapping or not written, and its values are of the types of their
fields. -/
def TypedIn {σ : Type} (d : Yaml.Document) (es : List (Node × Node)) (name : String)
    (columns : List (Column σ)) : Prop :=
  ∀ v, d.Gives es name v → ∃ inner, d.fields? v = some inner ∧
    ∀ c ∈ columns, ∀ w, d.Gives inner c.name w → ∃ x, c.Reads d w x

structure Typed (d : Yaml.Document) (es : List (Node × Node)) : Prop where
  detection : TypedIn d es "detection" detectionColumns
  folding : TypedIn d es "folding" foldingColumns
  styles : TypedIn d es "styles" styleColumns

def Overlaid (d : Yaml.Document) (es : List (Node × Node)) (s : Settings) : Prop :=
  ∀ c ∈ sectionColumns, c.Overlaid d es {} s

section Sections

variable {σ τ : Type} {d : Yaml.Document} {es : List (Node × Node)} {name : String} {get : σ → τ}
  {columns : List (Column τ)} {default : τ}

private theorem fits_group (hnamed : NamedIn d es name (columns.map (·.name)))
    (htyped : TypedIn d es name columns)
    (hleaf : ∀ c ∈ columns, ∀ w, (∃ x, c.Reads d w x) → c.Fits d w) {v : Node}
    (hv : d.Gives es name v) : (Column.group name get columns default).Fits d v := by
  obtain ⟨inner, hinner, hreads⟩ := htyped v hv
  exact ⟨inner, hinner, hnamed v inner hv hinner,
    fun c hc w hw => hleaf c hc w (hreads c hc w hw)⟩

private theorem namedIn_of_fits
    (hfits : ∀ v, d.Gives es name v → (Column.group name get columns default).Fits d v) :
    NamedIn d es name (columns.map (·.name)) := by
  intro v inner hv hinner
  obtain ⟨inner', hinner', hkeyed, -⟩ := hfits v hv
  obtain rfl : inner = inner' := Option.some.inj (hinner.symm.trans hinner')
  exact hkeyed

end Sections

section Loading

variable {text : List Char} {d : Yaml.Document} {es : List (Node × Node)}

private theorem fits_sections (hnamed : Named d es) (htyped : Typed d es) :
    ∀ c ∈ sectionColumns, ∀ v, d.Gives es c.name v → c.Fits d v := by
  intro c hc v hv
  simp only [sectionColumns, List.mem_cons, List.not_mem_nil, or_false] at hc
  rcases hc with rfl | rfl | rfl
  · refine fits_group hnamed.detection htyped.detection ?_ hv
    simp only [detectionColumns, Column.leaf, List.forall_mem_cons, imp_self, implies_true,
      and_self, List.not_mem_nil, IsEmpty.forall_iff]
  · refine fits_group hnamed.folding htyped.folding ?_ hv
    simp only [foldingColumns, Column.leaf, List.forall_mem_cons, imp_self, implies_true,
      and_self, List.not_mem_nil, IsEmpty.forall_iff]
  · refine fits_group hnamed.styles htyped.styles ?_ hv
    simp only [styleColumns, Column.leaf, List.forall_mem_cons, imp_self, implies_true,
      and_self, List.not_mem_nil, IsEmpty.forall_iff]

private theorem named_of_decode_ok {s : Settings} (hes : d.fields? d.root = some es)
    (h : decode d [] d.root = .ok s) : Named d es := by
  obtain ⟨es', hes', hkeyed, hfits, -⟩ := of_record_ok sectionTable h
  obtain rfl : es = es' := Option.some.inj (hes.symm.trans hes')
  simp only [sectionColumns, List.forall_mem_cons] at hfits
  obtain ⟨hdetection, hfolding, hstyles, -⟩ := hfits
  exact ⟨hkeyed, namedIn_of_fits hdetection, namedIn_of_fits hfolding, namedIn_of_fits hstyles⟩

private theorem decode_of_overlaid (hes : d.fields? d.root = some es) (hnamed : Named d es)
    (htyped : Typed d es) :
    ∃ s, Overlaid d es s ∧ ∀ t, Overlaid d es t → decode d [] d.root = .ok t := by
  obtain ⟨s, hs⟩ : ∃ s, decode d [] d.root = .ok s :=
    exists_record_ok sectionTable hes hnamed.root (fits_sections hnamed htyped)
  obtain ⟨es', hes', hkeyed, -, hover⟩ := of_record_ok sectionTable hs
  obtain rfl : es = es' := Option.some.inj (hes.symm.trans hes')
  refine ⟨s, hover, fun t ht => ?_⟩
  rw [sectionColumns_complete.overlaid_unique hkeyed ht hover]
  exact hs

private theorem ofYaml_of_document (hdoc : Yaml.Document.ofText text = .ok [d])
    (hblank : Text.isBlankText text = false) :
    ofYaml text = match decode d [] d.root with
      | .error f => .error (.faulty f)
      | .ok s => if Text.isBlankText s.folding.placeholder then .error .blankPlaceholder
        else .ok s := by
  have hload : load? decode text = ((decode d [] d.root).mapError LoadError.faulty).map some := by
    unfold load?
    rw [hblank, hdoc, if_neg Bool.false_ne_true]
    change (do let s ← (decode d [] d.root).mapError LoadError.faulty; pure (some s)) = _
    cases decode d [] d.root <;> rfl
  unfold ofYaml
  rw [hload]
  cases decode d [] d.root with
  | error f => rfl
  | ok s =>
    change (if s.isUsable then Except.ok s else .error LoadError.blankPlaceholder) =
      if Text.isBlankText s.folding.placeholder then .error .blankPlaceholder else Except.ok s
    unfold isUsable
    cases Text.isBlankText s.folding.placeholder <;> rfl

private theorem placeholder_of_ofYaml_ok {s : Settings} (h : ofYaml text = .ok s) :
    ∃ c ∈ s.folding.placeholder, Text.isBlank c = false := by
  obtain ⟨o, -, h⟩ := bind_eq_ok_iff.mp h
  dsimp only at h
  split at h
  · next husable =>
    cases h
    unfold isUsable Text.isBlankText at husable
    simpa using husable
  · cases h

private theorem isBlankText_of_mapping {m : Mark} {tag : Option (List Char)}
    (hdoc : Yaml.Document.ofText text = .ok [d]) (hroot : d.root = .mapping m tag es) :
    Text.isBlankText text = false := by
  by_contra hblank
  rw [Bool.not_eq_false, Text.isBlankText, List.all_eq_true] at hblank
  obtain ⟨m', style, s, hscalar⟩ := Document.root_of_blank hblank hdoc
  rw [hroot] at hscalar
  cases hscalar

end Loading

/-- Known fields, each at most once and of the right type, are laid over the defaults in whatever
order they come; an unknown or repeated field is a fault. What is loaded always has a placeholder
that shows. -/
theorem ofYaml_lays_over_defaults :
    (∀ text d m tag es, Yaml.Document.ofText text = .ok [d] → d.root = .mapping m tag es →
      (Named d es → Typed d es → (∃ s, Overlaid d es s) ∧ ∀ s, Overlaid d es s →
        ofYaml text = if Text.isBlankText s.folding.placeholder then .error .blankPlaceholder
          else .ok s) ∧
      (¬Named d es → ∃ f, ofYaml text = .error (.faulty f))) ∧
    ∀ text s, ofYaml text = .ok s → ∃ c ∈ s.folding.placeholder, Text.isBlank c = false := by
  refine ⟨?_, fun text s => placeholder_of_ofYaml_ok⟩
  intro text d m tag es hdoc hroot
  have hes : d.fields? d.root = some es := by rw [hroot]; rfl
  have hload := ofYaml_of_document hdoc (isBlankText_of_mapping hdoc hroot)
  constructor
  · intro hnamed htyped
    obtain ⟨s, hs, hall⟩ := decode_of_overlaid hes hnamed htyped
    refine ⟨⟨s, hs⟩, fun t ht => ?_⟩
    rw [hload, hall t ht]
  · intro hnamed
    cases hdecode : decode d [] d.root with
    | error f => exact ⟨f, by rw [hload, hdecode]⟩
    | ok s => exact absurd (named_of_decode_ok hes hdecode) hnamed

/-- The sections out of order, one of them not written. -/
def swapped : List Char :=
  "styles: \x7bdelimiter: 0x1F\x7d\nfolding:\ndetection: \x7brule_neighbors: either\x7d\n".toList

/-- The documents of `swapped` but for the marks. -/
def isSwapped : Except SyntaxError (List Yaml.Document) → Bool
  | .ok [⟨.mapping _ _ [
      (.scalar _ _ _ a, .mapping _ _ [(.scalar _ _ _ b, .scalar _ _ .plain c)]),
      (.scalar _ _ _ e, .scalar _ _ .plain []),
      (.scalar _ _ _ f, .mapping _ _ [(.scalar _ _ _ g, .scalar _ none _ h)])], _⟩] =>
    a == "styles".toList && b == "delimiter".toList && c == "0x1F".toList &&
      e == "folding".toList && f == "detection".toList && g == "rule_neighbors".toList &&
      h == "either".toList
  | _ => false

def repeated : List Char := "folding:\nfolding:\n".toList

def isRepeated : Except SyntaxError (List Yaml.Document) → Bool
  | .ok [⟨.mapping _ _ [(.scalar _ _ _ a, _), (.scalar _ _ _ b, _)], _⟩] =>
    a == "folding".toList && b == "folding".toList
  | _ => false

private theorem namedIn_and_typedIn {σ τ : Type} {d : Yaml.Document} {es : List (Node × Node)}
    {names : List String} {name : String} {get : σ → τ} {columns : List (Column τ)} {default : τ}
    {base s : σ} (hkeyed : d.WellKeyed names es)
    (hover : (Column.group name get columns default).Overlaid d es base s) :
    NamedIn d es name (columns.map (·.name)) ∧ TypedIn d es name columns := by
  rcases hover with ⟨v, hv, inner, hinner, hnames, hinto⟩ | ⟨hnone, -⟩
  · constructor
    · intro w other hw hother
      obtain rfl := hkeyed.gives_unique hw hv
      obtain rfl : inner = other := Option.some.inj (hinner.symm.trans hother)
      exact hnames
    · intro w hw
      obtain rfl := hkeyed.gives_unique hw hv
      refine ⟨inner, hinner, fun c hc x hx => ?_⟩
      rcases hinto c hc with ⟨y, hy, hreads⟩ | ⟨hnone, -⟩
      · obtain rfl := hnames.gives_unique hx hy
        exact ⟨_, hreads⟩
      · exact absurd hx (hnone x)
  · exact ⟨fun v _ hv => absurd hv (hnone v), fun v hv => absurd hv (hnone v)⟩

private theorem named_and_typed {d : Yaml.Document} {es : List (Node × Node)} {s : Settings}
    (hroot : d.WellKeyed (sectionColumns.map (·.name)) es) (hover : Overlaid d es s) :
    Named d es ∧ Typed d es := by
  simp only [Overlaid, sectionColumns, List.forall_mem_cons] at hover
  obtain ⟨hdetection, hfolding, hstyles, -⟩ := hover
  have hdetection := namedIn_and_typedIn hroot hdetection
  have hfolding := namedIn_and_typedIn hroot hfolding
  have hstyles := namedIn_and_typedIn hroot hstyles
  exact ⟨⟨hroot, hdetection.1, hfolding.1, hstyles.1⟩, hdetection.2, hfolding.2, hstyles.2⟩

section Swapped

variable {d : Yaml.Document} {m m' : Mark} {tag tag' : Option (List Char)}
  {style style' : ScalarStyle}

private theorem gives_head {name : String} {v : Node} {es : List (Node × Node)} :
    d.Gives ((.scalar m tag style name.toList, v) :: es) name v :=
  Document.gives_cons_iff.mpr (.inl ⟨Document.says_scalar_iff.mpr rfl, rfl⟩)

private theorem gives_tail {name : String} {v : Node} {e : Node × Node} {es : List (Node × Node)}
    (h : d.Gives es name v) : d.Gives (e :: es) name v :=
  Document.gives_cons_iff.mpr (.inr h)

private theorem overlaid_either : ∀ c ∈ detectionColumns,
    c.Overlaid d [(.scalar m tag style "rule_neighbors".toList, .scalar m' none style' "either".toList)]
      {} { neighbors := .either } := by
  intro c hc
  rcases List.mem_pair.mp hc with rfl | rfl
  · exact .inl ⟨_, gives_head, .inl ⟨m', none, style', rfl, by simp⟩⟩
  · exact .inr ⟨by simp [Column.leaf], rfl⟩

private theorem writes_thirtyOne : Numeral.Writes "0x1F".toList 31 := by
  have hspells : Numeral.Spells 16 "1F".toList 31 := by
    refine ⟨[1, 15], by simp, by decide, .cons ?_ (.cons ?_ .nil), by decide⟩
    · exact ⟨"0123456789abcdef", by simp [Numeral.digitRows], rfl⟩
    · exact ⟨"0123456789ABCDEF", by simp [Numeral.digitRows], rfl⟩
  have hmark : ("0x", 16) ∈ Numeral.marks := by simp [Numeral.marks]
  exact ⟨_, .inl rfl, .marked hmark hspells⟩

private theorem overlaid_thirtyOne : ∀ c ∈ styleColumns,
    c.Overlaid d [(.scalar m tag style "delimiter".toList, .scalar m' tag' .plain "0x1F".toList)]
      {} { delimiter := 31 } := by
  intro c hc
  simp only [styleColumns, List.mem_cons, List.not_mem_nil, or_false] at hc
  rcases hc with rfl | rfl | hc
  · exact .inr ⟨by simp [Column.leaf], rfl⟩
  · exact .inl ⟨_, gives_head, _, ⟨m', tag', .plain, rfl, .inl rfl⟩, writes_thirtyOne⟩
  · rcases hc with rfl | rfl | rfl | rfl | rfl | rfl | rfl <;>
      exact .inr ⟨by simp [Column.leaf], rfl⟩

private theorem exists_swapped :
    ∃ d m tag es, Yaml.Document.ofText swapped = .ok [d] ∧ d.root = .mapping m tag es ∧
      d.WellKeyed (sectionColumns.map (·.name)) es ∧
      Overlaid d es { detection := { neighbors := .either }, styles := { delimiter := 31 } } := by
  have hswapped : isSwapped (Yaml.Document.ofText swapped) = true := by decide +kernel
  unfold isSwapped at hswapped
  split at hswapped
  · next hdoc =>
    simp only [Bool.and_eq_true, beq_iff_eq] at hswapped
    obtain ⟨⟨⟨⟨⟨⟨rfl, rfl⟩, rfl⟩, rfl⟩, rfl⟩, rfl⟩, rfl⟩ := hswapped
    refine ⟨_, _, _, _, hdoc, rfl, by simp [sectionColumns, Column.group], ?_⟩
    intro c hc
    simp only [sectionColumns, List.mem_cons, List.not_mem_nil, or_false] at hc
    rcases hc with rfl | rfl | rfl
    · exact .inl ⟨_, gives_tail (gives_tail gives_head), _, rfl,
        by simp [detectionColumns, Column.leaf], overlaid_either⟩
    · exact .inl ⟨_, gives_tail gives_head, _, rfl, Document.wellKeyed_nil _,
        fun c _ => .inr ⟨Document.not_gives_nil c.name, rfl⟩⟩
    · exact .inl ⟨_, gives_head, _, rfl, by simp [styleColumns, Column.leaf], overlaid_thirtyOne⟩
  · cases hswapped

end Swapped

private theorem exists_repeated :
    ∃ d m tag es, Yaml.Document.ofText repeated = .ok [d] ∧ d.root = .mapping m tag es ∧
      ¬Named d es := by
  have hrepeated : isRepeated (Yaml.Document.ofText repeated) = true := by decide +kernel
  unfold isRepeated at hrepeated
  split at hrepeated
  · next hdoc =>
    simp only [Bool.and_eq_true, beq_iff_eq] at hrepeated
    obtain ⟨rfl, rfl⟩ := hrepeated
    exact ⟨_, _, _, _, hdoc, rfl, fun hnamed => by simpa using hnamed.root⟩
  · cases hrepeated

theorem ofYaml_lays_over_defaults_swapped :
    (∃ d m tag es, Yaml.Document.ofText swapped = .ok [d] ∧ d.root = .mapping m tag es ∧
      Named d es ∧ Typed d es ∧ ((∃ s, Overlaid d es s) ∧ ∀ s, Overlaid d es s →
        ofYaml swapped = if Text.isBlankText s.folding.placeholder then .error .blankPlaceholder
          else .ok s) ∧
      ofYaml swapped =
        .ok { detection := { neighbors := .either }, styles := { delimiter := 31 } }) ∧
    ∃ d m tag es, Yaml.Document.ofText repeated = .ok [d] ∧ d.root = .mapping m tag es ∧
      ¬Named d es ∧ ∃ f, ofYaml repeated = .error (.faulty f) := by
  constructor
  · obtain ⟨d, m, tag, es, hdoc, hroot, hkeyed, hover⟩ := exists_swapped
    obtain ⟨hnamed, htyped⟩ := named_and_typed hkeyed hover
    have hload := (ofYaml_lays_over_defaults.1 swapped d m tag es hdoc hroot).1 hnamed htyped
    exact ⟨d, m, tag, es, hdoc, hroot, hnamed, htyped, hload,
      (hload.2 _ hover).trans (if_neg (by decide))⟩
  · obtain ⟨d, m, tag, es, hdoc, hroot, hrepeated⟩ := exists_repeated
    exact ⟨d, m, tag, es, hdoc, hroot, hrepeated,
      (ofYaml_lays_over_defaults.1 repeated d m tag es hdoc hroot).2 hrepeated⟩

end MetaBlocks.Settings
