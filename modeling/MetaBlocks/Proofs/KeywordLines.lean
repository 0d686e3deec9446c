import Mathlib.Data.List.TakeWhile
import MetaBlocks.Completion
import MetaBlocks.Proofs.Kinds

/-!
The shape of keyword lines. A line declares a keyword exactly when it is blanks, the word, a colon
and any rest; the name is the trimmed rest. The text before a cursor is a keyword prefix exactly
when it has the same shape, so both readers of a line are compared through one description.
-/

set_option autoImplicit false
set_option relaxedAutoImplicit false

namespace MetaBlocks

namespace Text

variable {s t : List Char}

theorem isBlankText_iff : isBlankText s = true ↔ ∀ c ∈ s, isBlank c = true := List.all_eq_true

theorem isBlankText_takeWhile (s : List Char) : isBlankText (s.takeWhile isBlank) = true :=
  List.all_takeWhile

theorem trimStart_of_isBlankText (h : isBlankText s = true) : trimStart s = [] :=
  List.dropWhile_eq_nil_iff.mpr (isBlankText_iff.mp h)

theorem trimStart_append (h : isBlankText s = true) (ht : ∀ c ∈ t.head?, isBlank c = false) :
    trimStart (s ++ t) = t := by
  rw [trimStart, List.dropWhile_append_of_pos (isBlankText_iff.mp h)]
  cases t with
  | nil => rfl
  | cons c t => exact List.dropWhile_cons_of_neg (by simp [ht c rfl])

theorem takeWhile_isBlank_append (h : isBlankText s = true)
    (ht : ∀ c ∈ t.head?, isBlank c = false) : (s ++ t).takeWhile isBlank = s := by
  rw [List.takeWhile_append_of_pos (isBlankText_iff.mp h)]
  cases t with
  | nil => simp
  | cons c t => rw [List.takeWhile_cons_of_neg (by simp [ht c rfl]), List.append_nil]

private theorem head?_trimStart (s : List Char) : ∀ c ∈ (trimStart s).head?, isBlank c = false := by
  intro c hc
  have h := List.head?_dropWhile_not isBlank s
  rw [trimStart] at hc
  rw [hc] at h
  exact h

private theorem trimEnd_of_isBlankText (h : isBlankText s = true) : trimEnd s = [] := by
  induction s with
  | nil => rfl
  | cons c s ih =>
    simp only [isBlankText, List.all_cons, Bool.and_eq_true] at h
    simp [trimEnd, ih h.2, h.1]

theorem trimEnd_append (s : List Char) (h : isBlankText t = true) : trimEnd (s ++ t) = trimEnd s := by
  induction s with
  | nil => rw [List.nil_append, trimEnd_of_isBlankText h, trimEnd]
  | cons c s ih => simp only [List.cons_append, trimEnd, ih]

theorem trimEnd_eq_self (h : ∀ c ∈ s.getLast?, isBlank c = false) : trimEnd s = s := by
  induction s with
  | nil => rfl
  | cons c s ih =>
    cases s with
    | nil => simp [trimEnd, h c rfl]
    | cons e s =>
      have ih := ih fun x hx => h x (by rw [List.getLast?_cons_cons]; exact hx)
      rw [trimEnd, ih]

theorem getLast?_trimEnd (s : List Char) : ∀ c ∈ (trimEnd s).getLast?, isBlank c = false := by
  induction s with
  | nil => simp [trimEnd]
  | cons c s ih =>
    intro x hx
    cases he : trimEnd s with
    | nil =>
      by_cases hc : isBlank c
      · simp [trimEnd, he, hc] at hx
      · obtain rfl : c = x := by simpa [trimEnd, he, hc] using hx
        simpa using hc
    | cons e u =>
      rw [trimEnd, he, Option.mem_def, List.getLast?_cons_cons, ← he] at hx
      exact ih x hx

theorem exists_trail (s : List Char) :
    ∃ t, s = s.takeWhile isBlank ++ (trim s ++ t) ∧ isBlankText t = true := by
  obtain ⟨t, ht, hblank⟩ := exists_append_trimEnd (trimStart s)
  refine ⟨t, ?_, hblank⟩
  rw [trim, ← ht, takeWhile_append_trimStart]

theorem head?_trim (s : List Char) : ∀ c ∈ (trim s).head?, isBlank c = false := by
  intro c hc
  obtain ⟨t, ht, -⟩ := exists_append_trimEnd (trimStart s)
  refine head?_trimStart s c ?_
  rw [ht, Option.mem_def, List.head?_append, ← trim, hc, Option.some_or]

theorem isBlankText_of_trim_eq_nil (h : trim s = []) : isBlankText s = true := by
  obtain ⟨t, ht, hblank⟩ := exists_trail s
  rw [h, List.nil_append] at ht
  have hlead := isBlankText_takeWhile s
  rw [ht, isBlankText, List.all_append, Bool.and_eq_true]
  exact ⟨hlead, hblank⟩

/-- Trimming the part of a text before a cursor drops what trimming the text drops, as far as the
cursor has come. -/
theorem trimStart_take (s : List Char) (n : Nat) :
    trimStart (s.take n) = (s.take n).drop (s.takeWhile isBlank).length := by
  have hsplit := takeWhile_append_trimStart (s.take n)
  have hlen : ((s.take n).takeWhile isBlank).length = min n (s.takeWhile isBlank).length := by
    rw [← List.take_takeWhile, List.length_take]
  have hdrop : (s.take n).drop ((s.take n).takeWhile isBlank).length = trimStart (s.take n) := by
    calc (s.take n).drop ((s.take n).takeWhile isBlank).length
        = ((s.take n).takeWhile isBlank ++ trimStart (s.take n)).drop
            ((s.take n).takeWhile isBlank).length := by rw [hsplit]
      _ = trimStart (s.take n) := List.drop_left
  rw [← hdrop, hlen]
  by_cases hle : n ≤ (s.takeWhile isBlank).length
  · have hshort : (s.take n).length ≤ n := List.length_take_le n s
    rw [Nat.min_eq_left hle, List.drop_eq_nil_of_le hshort, List.drop_eq_nil_of_le (by omega)]
  · rw [Nat.min_eq_right (by omega)]

end Text

theorem Keyword.ofKey?_eq_some_iff {key : List Char} {k : Keyword} :
    ofKey? key = some k ↔ key = k.word := by
  have hdiff : scope.word ≠ quill.word := by decide
  unfold ofKey?
  by_cases hs : key = scope.word
  · cases k <;> simp [hs, hdiff]
  · by_cases hq : key = quill.word
    · cases k <;> simp [hq, hdiff.symm]
    · cases k <;> simp [hs, hq]

namespace LineKind

theorem isBlank_of_isKeyChar {c : Char} (h : isKeyChar c = true) : Text.isBlank c = false := by
  have hword : (65 ≤ c.toNat ∧ c.toNat ≤ 90) ∨ (97 ≤ c.toNat ∧ c.toNat ≤ 122) ∨
      (48 ≤ c.toNat ∧ c.toNat ≤ 57) ∨ c.toNat = 95 ∨ c.toNat = 45 := by
    have hranges : isKeyChar c =
        (decide (65 ≤ c.val ∧ c.val ≤ 90) || 97 ≤ c.val && c.val ≤ 122 ||
          48 ≤ c.val && c.val ≤ 57 || c == '_' || c == '-') := rfl
    simp only [hranges, Bool.or_eq_true, Bool.and_eq_true, decide_eq_true_eq, beq_iff_eq,
      UInt32.le_iff_toNat_le] at h
    rcases h with (((h | h) | h) | rfl) | rfl
    · exact .inl h
    · exact .inr (.inl h)
    · exact .inr (.inr (.inl h))
    · exact .inr (.inr (.inr (.inl rfl)))
    · exact .inr (.inr (.inr (.inr rfl)))
  rw [← Bool.not_eq_true, Text.isBlank]
  simp only [Bool.or_eq_true, Bool.and_eq_true, beq_iff_eq, decide_eq_true_eq]
  omega

theorem isKeyChar_of_mem_word {k : Keyword} {c : Char} (h : c ∈ k.word) : isKeyChar c = true := by
  have hall : k.word.all isKeyChar = true := by cases k <;> decide
  exact List.all_eq_true.mp hall c h

theorem isBlank_of_head?_word (k : Keyword) (t : List Char) :
    ∀ c ∈ (k.word ++ t).head?, Text.isBlank c = false := by
  intro c hc
  have hmem : c ∈ k.word := by
    cases k <;> exact List.mem_of_mem_head? (Option.mem_def.mpr hc)
  exact isBlank_of_isKeyChar (isKeyChar_of_mem_word hmem)

theorem field?_append {indent key : List Char} (hindent : Text.isBlankText indent = true)
    (hkey : key ≠ []) (hchars : ∀ c ∈ key, isKeyChar c = true) (rest : List Char) :
    field? (indent ++ (key ++ ':' :: rest)) =
      some ⟨indent, key, rest.takeWhile Text.isBlank, Text.trim rest⟩ := by
  obtain ⟨c, cs, rfl⟩ := List.exists_cons_of_ne_nil hkey
  have hhead : ∀ x ∈ (c :: cs ++ ':' :: rest).head?, Text.isBlank x = false := by
    intro x hx
    obtain rfl : c = x := by simpa using hx
    exact isBlank_of_isKeyChar (hchars c List.mem_cons_self)
  have hcolon : ¬isKeyChar ':' = true := by decide
  have htake : (c :: cs ++ ':' :: rest).takeWhile isKeyChar = c :: cs := by
    rw [List.takeWhile_append_of_pos hchars, List.takeWhile_cons_of_neg hcolon, List.append_nil]
  have hdrop : (c :: cs ++ ':' :: rest).dropWhile isKeyChar = ':' :: rest := by
    rw [List.dropWhile_append_of_pos hchars, List.dropWhile_cons_of_neg hcolon]
  simp only [field?, Text.trimStart_append hindent hhead, htake, hdrop,
    Text.takeWhile_isBlank_append hindent hhead]

theorem exists_rest_of_field? {s : List Char} {f : Field} (h : field? s = some f) :
    ∃ rest, s = f.indent ++ (f.key ++ ':' :: rest) ∧ Text.isBlankText f.indent = true ∧
      f.gap = rest.takeWhile Text.isBlank ∧ f.value = Text.trim rest := by
  have hk := List.takeWhile_append_dropWhile (p := isKeyChar) (l := Text.trimStart s)
  simp only [field?] at h
  split at h
  case h_1 k ks rest hkey hrest =>
    obtain rfl := Option.some.inj h
    refine ⟨rest, ?_, Text.isBlankText_takeWhile s, rfl, rfl⟩
    rw [← hrest, hk, Text.takeWhile_append_trimStart]
  case h_2 => cases h

/-- A line with a field is neither blank nor a delimiter, since it has a colon. -/
theorem ofLine_of_field? {l : Line} {f : Field} (h : field? l.text = some f) :
    ofLine l = ofField l f := by
  obtain ⟨rest, htext, -⟩ := exists_rest_of_field? h
  have hcolon : ':' ∈ l.text := by
    rw [htext]
    simp
  have hblank {s : List Char} (hs : ':' ∈ s) : Text.isBlankText s = false := by
    rw [← Bool.not_eq_true, Text.isBlankText_iff]
    exact fun hall => absurd (hall ':' hs) (by decide)
  have hdelimiter : isDelimiterText l.text = false := by
    have hrest : ':' ∈ l.text.dropWhile (· == '-') := by
      rw [← List.takeWhile_append_dropWhile (p := (· == '-')) (l := l.text),
        List.mem_append] at hcolon
      refine hcolon.resolve_left fun hdash => ?_
      exact absurd (List.mem_takeWhile_imp hdash) (by decide)
    rw [isDelimiterText, hblank hrest, Bool.and_false]
  simp only [ofLine, Line.isBlank, hblank hcolon, hdelimiter, h, Bool.false_eq_true, ↓reduceIte]

private theorem isBlankText_of_isDelimiterText {s : List Char} (h : isDelimiterText s = true) :
    Text.isBlankText s = false := by
  simp only [isDelimiterText, Bool.and_eq_true, decide_eq_true_eq] at h
  have hpos : 0 < (s.takeWhile (· == '-')).length := by omega
  obtain ⟨c, hc⟩ := List.exists_mem_of_length_pos hpos
  have hdash : c = '-' := by simpa using List.mem_takeWhile_imp hc
  rw [← Bool.not_eq_true, Text.isBlankText_iff]
  intro hall
  have hblank := hall c ((List.takeWhile_prefix _).subset hc)
  rw [hdash] at hblank
  exact absurd hblank (by decide)

theorem ofLine_eq_delimiter_iff (l : Line) :
    ofLine l = .delimiter ↔ isDelimiterText l.text = true := by
  constructor
  · intro h
    unfold ofLine at h
    split at h
    · cases h
    · split at h
      · assumption
      · cases hf : field? l.text with
        | none => simp [hf] at h
        | some f =>
          simp only [hf, ofField] at h
          split at h <;> cases h
  · intro h
    have hblank := isBlankText_of_isDelimiterText h
    simp [ofLine, Line.isBlank, hblank, h]

def declared (l : Line) (k : Keyword) (indent rest : List Char) : Declaration :=
  let keyword : Extent := ⟨l.start + indent.length, l.start + indent.length + k.word.length⟩
  let nameStart := keyword.stop + 1 + (rest.takeWhile Text.isBlank).length
  ⟨k, l.number, keyword, Text.trim rest, ⟨nameStart, nameStart + (Text.trim rest).length⟩⟩

theorem ofLine_eq_declared {l : Line} {k : Keyword} {indent rest : List Char}
    (hindent : Text.isBlankText indent = true) (h : l.text = indent ++ (k.word ++ ':' :: rest)) :
    ofLine l = .declaration (declared l k indent rest) := by
  have hword : k.word ≠ [] := by cases k <;> decide
  have hfield := field?_append hindent hword (fun c hc => isKeyChar_of_mem_word hc) rest
  rw [← h] at hfield
  rw [ofLine_of_field? hfield, ofField, Keyword.ofKey?_eq_some_iff.mpr rfl]
  rfl

theorem ofLine_eq_declaration_iff {l : Line} {c : Declaration} :
    ofLine l = .declaration c ↔ ∃ k indent rest, Text.isBlankText indent = true ∧
      l.text = indent ++ (k.word ++ ':' :: rest) ∧ c = declared l k indent rest := by
  constructor
  · intro h
    obtain ⟨f, hf, ho⟩ := exists_field (l := l) (by rw [h]; rfl)
    obtain ⟨rest, htext, hindent, hgap, hvalue⟩ := exists_rest_of_field? hf
    rw [h, ofField] at ho
    cases hk : Keyword.ofKey? f.key with
    | none => simp [hk] at ho
    | some k =>
      have hkey := Keyword.ofKey?_eq_some_iff.mp hk
      simp only [hk, declaration.injEq] at ho
      refine ⟨k, f.indent, rest, hindent, by rw [← hkey]; exact htext, ?_⟩
      rw [ho, declared, hgap, hvalue, hkey]
  · rintro ⟨k, indent, rest, hindent, htext, rfl⟩
    exact ofLine_eq_declared hindent htext

end LineKind

namespace CompletionContext

theorem keywordPrefix?_eq_some_iff {s typed : List Char} {k : Keyword} :
    keywordPrefix? s = some (k, typed) ↔ ∃ indent rest, Text.isBlankText indent = true ∧
      s = indent ++ (k.word ++ ':' :: rest) ∧ typed = Text.trimStart rest := by
  constructor
  · intro h
    have hafter {k' : Keyword} (hk : (if (k'.word ++ [':']).isPrefixOf (Text.trimStart s) then
        some (k', Text.trimStart ((Text.trimStart s).drop (k'.word.length + 1))) else none) =
          some (k, typed)) : ∃ indent rest, Text.isBlankText indent = true ∧
            s = indent ++ (k.word ++ ':' :: rest) ∧ typed = Text.trimStart rest := by
      rw [Option.ite_none_right_eq_some, Option.some.injEq, Prod.mk.injEq] at hk
      obtain ⟨hstarts, rfl, rfl⟩ := hk
      obtain ⟨rest, hrest⟩ := List.isPrefixOf_iff_prefix.mp hstarts
      refine ⟨s.takeWhile Text.isBlank, rest, Text.isBlankText_takeWhile s, ?_, ?_⟩
      · rw [← List.singleton_append, ← List.append_assoc k'.word, hrest,
          Text.takeWhile_append_trimStart]
      · rw [← hrest, ← List.length_singleton (a := ':'), ← List.length_append, List.drop_left]
    rw [keywordPrefix?, Option.or_eq_some_iff] at h
    rcases h with h | ⟨-, h⟩
    · exact hafter h
    · exact hafter h
  · rintro ⟨indent, rest, hindent, rfl, rfl⟩
    rw [keywordPrefix?, Text.trimStart_append hindent (LineKind.isBlank_of_head?_word k _)]
    cases k <;> simp [Keyword.word, List.isPrefixOf]

end CompletionContext

end MetaBlocks
