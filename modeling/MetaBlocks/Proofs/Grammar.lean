import MetaBlocks.Proofs.KeywordLines
import MetaBlocks.Proofs.Tiling

/-!
The grammar of lines. A line is blank, a row of dashes, a key with a colon, or plain text, and the
classifier tells these apart exactly. The parts of a field are read back from the document at the
extents the classifier gives them, with nothing but white space and the colon around them.
-/

set_option autoImplicit false
set_option relaxedAutoImplicit false

namespace MetaBlocks

namespace Text

def Blank (s : List Char) : Prop := ∀ c ∈ s, isBlank c = true

def Dashes (s : List Char) : Prop :=
  ∃ n trail, 3 ≤ n ∧ s = List.replicate n '-' ++ trail ∧ Blank trail

def KeyChar (c : Char) : Prop :=
  ('A' ≤ c ∧ c ≤ 'Z') ∨ ('a' ≤ c ∧ c ≤ 'z') ∨ ('0' ≤ c ∧ c ≤ '9') ∨ c = '_' ∨ c = '-'

/-- White space, a key, a colon, and any rest. -/
structure Keyed (s indent key rest : List Char) : Prop where
  text : s = indent ++ (key ++ ':' :: rest)
  indent : Blank indent
  key_ne_nil : key ≠ []
  key_chars : ∀ c ∈ key, KeyChar c

end Text

namespace LineKind

theorem isKeyChar_iff (c : Char) : isKeyChar c = true ↔ Text.KeyChar c := by
  have hranges : isKeyChar c =
      (decide ('A' ≤ c ∧ c ≤ 'Z') || 'a' ≤ c && c ≤ 'z' || '0' ≤ c && c ≤ '9' || c == '_' ||
        c == '-') := rfl
  simp only [hranges, Text.KeyChar, Bool.or_eq_true, Bool.and_eq_true, decide_eq_true_eq, beq_iff_eq]
  tauto

theorem isDelimiterText_iff (s : List Char) : isDelimiterText s = true ↔ Text.Dashes s := by
  rw [isDelimiterText, Bool.and_eq_true, decide_eq_true_eq, Text.isBlankText_iff]
  constructor
  · rintro ⟨hlen, hblank⟩
    have hdashes : s.takeWhile (· == '-') = List.replicate (s.takeWhile (· == '-')).length '-' := by
      refine List.eq_replicate_of_mem fun c hc => ?_
      simpa using List.mem_takeWhile_imp hc
    refine ⟨_, s.dropWhile (· == '-'), hlen, ?_, hblank⟩
    rw [← hdashes, List.takeWhile_append_dropWhile]
  · rintro ⟨n, trail, hn, rfl, hblank⟩
    have hdash : ∀ c ∈ List.replicate n '-', (c == '-') = true := by
      intro c hc
      simp [List.eq_of_mem_replicate hc]
    rw [List.takeWhile_append_of_pos hdash, List.dropWhile_append_of_pos hdash]
    constructor
    · rw [List.length_append, List.length_replicate]
      omega
    · intro c hc
      exact hblank c ((List.dropWhile_sublist _).mem hc)

theorem key_of_field? {s : List Char} {f : Field} (h : field? s = some f) :
    f.key ≠ [] ∧ ∀ c ∈ f.key, Text.KeyChar c := by
  simp only [field?] at h
  split at h
  case h_1 k ks rest hkey hrest =>
    obtain rfl := Option.some.inj h
    refine ⟨by rw [hkey]; exact List.cons_ne_nil k ks, ?_⟩
    intro c hc
    exact (isKeyChar_iff c).mp (List.mem_takeWhile_imp hc)
  case h_2 => cases h

theorem field?_eq_some_iff {s : List Char} {f : Field} :
    field? s = some f ↔ ∃ rest, Text.Keyed s f.indent f.key rest ∧
      f.gap = rest.takeWhile Text.isBlank ∧ f.value = Text.trim rest := by
  constructor
  · intro h
    obtain ⟨rest, htext, hindent, hgap, hvalue⟩ := exists_rest_of_field? h
    obtain ⟨hne, hchars⟩ := key_of_field? h
    exact ⟨rest, ⟨htext, Text.isBlankText_iff.mp hindent, hne, hchars⟩, hgap, hvalue⟩
  · rintro ⟨rest, hkeyed, hgap, hvalue⟩
    have hchars : ∀ c ∈ f.key, isKeyChar c = true := by
      intro c hc
      exact (isKeyChar_iff c).mpr (hkeyed.key_chars c hc)
    rw [hkeyed.text, field?_append (Text.isBlankText_iff.mpr hkeyed.indent) hkeyed.key_ne_nil hchars,
      ← hgap, ← hvalue]

/-- Where the parts of a field stand: `key` and `value` are read back at their extents, and around
them there is only the colon and white space. -/
structure FieldAt (d : Document) (l : Line) (key value : List Char) (keyExtent valueExtent : Extent) :
    Prop where
  key_within : l.start ≤ keyExtent.start ∧ keyExtent.start ≤ keyExtent.stop ∧ keyExtent.stop ≤ l.stop
  value_within :
    l.start ≤ valueExtent.start ∧ valueExtent.start ≤ valueExtent.stop ∧ valueExtent.stop ≤ l.stop
  key_read : d.slice keyExtent = key
  value_read : d.slice valueExtent = value
  value_trimmed : value = Text.trim (d.slice ⟨keyExtent.stop + 1, l.stop⟩)
  value_head : ∀ c ∈ value.head?, Text.isBlank c = false
  value_last : ∀ c ∈ value.getLast?, Text.isBlank c = false
  indent : Text.Blank (d.slice ⟨l.start, keyExtent.start⟩)
  colon : ∃ gap, d.slice ⟨keyExtent.stop, valueExtent.start⟩ = ':' :: gap ∧ Text.Blank gap
  trail : Text.Blank (d.slice ⟨valueExtent.stop, l.stop⟩)

variable {d : Document} {l : Line}

private theorem slice_within (hl : l ∈ d.lines) {u m v : List Char} (htext : l.text = u ++ (m ++ v))
    {e : Extent} (hstart : e.start = l.start + u.length) (hstop : e.stop = e.start + m.length) :
    d.slice e = m := by
  obtain ⟨c, hcut, rfl⟩ := Document.exists_cut_of_mem_lines hl
  have hline : c.line = u ++ (m ++ v) := htext
  have hsplit : d.text = (c.before ++ u) ++ (m ++ (v ++ c.lineBreak ++ c.after)) := by
    rw [hcut, Text.Cut.text, hline]
    simp only [List.append_assoc]
  refine Document.slice_of_append hsplit ?_ ?_
  · rw [hstart, List.length_append]
    rfl
  · rw [hstop, hstart, List.length_append]
    rfl

private theorem fieldAt_of_field? (hl : l ∈ d.lines) {f : Field} (hf : field? l.text = some f) :
    let keyStart := l.start + f.indent.length
    let valueStart := keyStart + f.key.length + 1 + f.gap.length
    FieldAt d l f.key f.value ⟨keyStart, keyStart + f.key.length⟩
      ⟨valueStart, valueStart + f.value.length⟩ := by
  intro keyStart valueStart
  obtain ⟨rest, hkeyed, hgap, hvalue⟩ := field?_eq_some_iff.mp hf
  obtain ⟨trail, hrest, htrail⟩ := Text.exists_trail rest
  rw [← hgap, ← hvalue] at hrest
  have htext : l.text = f.indent ++ (f.key ++ ':' :: (f.gap ++ (f.value ++ trail))) := by
    rw [← hrest]
    exact hkeyed.text
  have hlen := congrArg List.length htext
  simp only [List.length_append, List.length_cons] at hlen
  have hstop : l.stop = l.start + l.text.length := rfl
  constructor
  · simp only [keyStart]
    omega
  · simp only [keyStart, valueStart]
    omega
  · exact slice_within hl htext rfl rfl
  · refine slice_within hl (u := f.indent ++ (f.key ++ ':' :: f.gap)) (v := trail) ?_ ?_ rfl
    · simp [htext]
    · simp only [keyStart, valueStart, List.length_append, List.length_cons]
      omega
  · rw [slice_within hl (u := f.indent ++ (f.key ++ [':'])) (m := rest) (v := []), hvalue]
    · simp [htext, hrest]
    · simp only [keyStart, List.length_append, List.length_cons, List.length_nil]
      omega
    · rw [hrest]
      simp only [keyStart, List.length_append]
      omega
  · rw [hvalue]
    exact Text.head?_trim rest
  · rw [hvalue]
    exact Text.getLast?_trimEnd _
  · rw [slice_within hl (u := []) htext rfl rfl]
    exact hkeyed.indent
  · refine ⟨f.gap, slice_within hl (u := f.indent ++ f.key) (v := f.value ++ trail) ?_ ?_ ?_, ?_⟩
    · simp [htext]
    · simp only [keyStart, List.length_append]
      omega
    · simp only [keyStart, valueStart, List.length_cons]
      omega
    · rw [hgap]
      exact Text.isBlankText_iff.mp (Text.isBlankText_takeWhile rest)
  · rw [slice_within hl (u := f.indent ++ (f.key ++ ':' :: (f.gap ++ f.value))) (m := trail) (v := [])]
    · exact Text.isBlankText_iff.mp htrail
    · simp [htext]
    · simp only [keyStart, valueStart, List.length_append, List.length_cons]
      omega
    · simp only [keyStart, valueStart]
      omega

theorem declaration_at (hl : l ∈ d.lines) {k : Declaration} (h : ofLine l = .declaration k) :
    k.line = l.number ∧ FieldAt d l k.keyword.word k.name k.keywordExtent k.nameExtent := by
  obtain ⟨f, hf, hof⟩ := exists_field (l := l) (by rw [h]; rfl)
  have hat := fieldAt_of_field? hl hf
  rw [h, ofField] at hof
  cases hk : Keyword.ofKey? f.key with
  | none => simp [hk] at hof
  | some w =>
    simp only [hk, declaration.injEq] at hof
    rw [Keyword.ofKey?_eq_some_iff.mp hk] at hof hat
    subst hof
    exact ⟨rfl, hat⟩

theorem entry_at (hl : l ∈ d.lines) {e : Entry} (h : ofLine l = .entry e) :
    e.line = l.number ∧ FieldAt d l e.key e.value e.keyExtent e.valueExtent := by
  obtain ⟨f, hf, hof⟩ := exists_field (l := l) (by rw [h]; rfl)
  have hat := fieldAt_of_field? hl hf
  rw [h, ofField] at hof
  cases hk : Keyword.ofKey? f.key with
  | some w => simp [hk] at hof
  | none =>
    simp only [hk, entry.injEq] at hof
    subst hof
    exact ⟨rfl, hat⟩

end LineKind

end MetaBlocks
