import MetaBlocks.Decoration

/-!
What the kind of a line says about its text. A field is cut out of its line, piece after piece, so
the parts of a keyword line or an entry lie within the line's text.
-/

set_option autoImplicit false
set_option relaxedAutoImplicit false

namespace MetaBlocks

namespace Text

theorem takeWhile_append_trimStart (s : List Char) : s.takeWhile isBlank ++ trimStart s = s :=
  List.takeWhile_append_dropWhile

theorem exists_append_trimEnd (s : List Char) :
    ∃ t, s = trimEnd s ++ t ∧ isBlankText t = true := by
  induction s with
  | nil => exact ⟨[], rfl, rfl⟩
  | cons c s ih =>
    obtain ⟨t, ht, hblank⟩ := ih
    cases he : trimEnd s with
    | nil =>
      rw [he, List.nil_append] at ht
      subst ht
      by_cases hc : isBlank c
      · exact ⟨c :: s, by simp [trimEnd, he, hc], by simpa [isBlankText, hc] using hblank⟩
      · exact ⟨s, by simp [trimEnd, he, hc], hblank⟩
    | cons e u =>
      refine ⟨t, ?_, hblank⟩
      rw [he] at ht
      simp only [trimEnd, he]
      rw [List.cons_append, ← ht]

end Text

namespace LineKind

theorem eq_of_field?_eq_some {s : List Char} {f : Field} (h : field? s = some f) :
    ∃ t, s = f.indent ++ (f.key ++ ':' :: (f.gap ++ (f.value ++ t))) := by
  have hk := List.takeWhile_append_dropWhile (p := isKeyChar) (l := Text.trimStart s)
  simp only [field?] at h
  split at h
  case h_1 k ks rest hkey hrest =>
    obtain rfl := Option.some.inj h
    obtain ⟨t, ht, -⟩ := Text.exists_append_trimEnd (Text.trimStart rest)
    refine ⟨t, ?_⟩
    simp only [Text.trim]
    rw [← ht, Text.takeWhile_append_trimStart, ← hrest, hk, Text.takeWhile_append_trimStart]
  case h_2 => cases h

theorem ofLine_eq_blank_iff (l : Line) : ofLine l = .blank ↔ l.isBlank = true := by
  unfold ofLine
  by_cases hb : l.isBlank = true
  · simp [hb]
  · simp only [hb, Bool.false_eq_true, ↓reduceIte, iff_false]
    split
    · exact LineKind.noConfusion
    · cases field? l.text with
      | none => exact LineKind.noConfusion
      | some f =>
        simp only [ofField]
        split <;> exact LineKind.noConfusion

theorem exists_field {l : Line} (h : (ofLine l).qualifies = true) :
    ∃ f, field? l.text = some f ∧ ofLine l = ofField l f := by
  unfold ofLine at h ⊢
  split
  next hb => simp [hb, qualifies] at h
  next hb =>
    split
    next hd => simp [hb, hd, qualifies] at h
    next hd =>
      cases hf : field? l.text with
      | none => simp [hb, hd, hf, qualifies] at h
      | some f => exact ⟨f, rfl, rfl⟩

private theorem field_within {l : Line} {f : Field} (h : field? l.text = some f) (k v : SpanKind) :
    let key : Extent := ⟨l.start + f.indent.length, l.start + f.indent.length + f.key.length⟩
    let value : Extent :=
      ⟨key.stop + 1 + f.gap.length, key.stop + 1 + f.gap.length + f.value.length⟩
    ∀ p ∈ [Span.mk key k, Span.mk value v], l.start ≤ p.extent.start ∧ p.extent.stop ≤ l.stop := by
  intro key value p hp
  obtain ⟨t, ht⟩ := eq_of_field?_eq_some h
  have hlen := congrArg List.length ht
  simp only [List.length_append, List.length_cons] at hlen
  simp only [List.mem_cons, List.not_mem_nil, or_false] at hp
  rcases hp with rfl | rfl
  · simp only [key, Line.stop]
    omega
  · simp only [key, value, Line.stop]
    omega

theorem declaration_within {l : Line} {c : Declaration} (h : declaration? (ofLine l) = some c) :
    ∀ p ∈ c.spans, l.start ≤ p.extent.start ∧ p.extent.stop ≤ l.stop := by
  have hk : ofLine l = .declaration c := by
    unfold declaration? at h
    split at h
    · next hl => rw [hl, Option.some.inj h]
    · cases h
  obtain ⟨f, hf, ho⟩ := exists_field (by rw [hk]; rfl)
  rw [hk, ofField] at ho
  cases hw : Keyword.ofKey? f.key with
  | none => simp [hw] at ho
  | some k =>
    simp only [hw, declaration.injEq] at ho
    subst ho
    exact field_within hf _ _

theorem entry_within {l : Line} {e : Entry} (h : entry? (ofLine l) = some e) :
    ∀ p ∈ e.spans, l.start ≤ p.extent.start ∧ p.extent.stop ≤ l.stop := by
  have hk : ofLine l = .entry e := by
    unfold entry? at h
    split at h
    · next hl => rw [hl, Option.some.inj h]
    · cases h
  obtain ⟨f, hf, ho⟩ := exists_field (by rw [hk]; rfl)
  rw [hk, ofField] at ho
  cases hw : Keyword.ofKey? f.key with
  | some k => simp [hw] at ho
  | none =>
    simp only [hw, entry.injEq] at ho
    subst ho
    exact field_within hf _ _

end LineKind

end MetaBlocks
