import Mathlib.Computability.Language
import MetaBlocks.Proofs.Blocks
import MetaBlocks.Proofs.Grammar

/-!
The literals that give a value its type. Number literals form a regular language over digits,
signs, the point and exponent marks. The reader takes at each place all digits there are and never
goes back; it accepts exactly the words of the language, because no part that can follow digits
starts with one. No such word is a truth word.
-/

set_option autoImplicit false
set_option relaxedAutoImplicit false

open scoped Computability

namespace MetaBlocks

namespace Text

def IsDecimal (c : Char) : Prop := ∃ z ∈ digitZeros, ∃ n < 10, c.toNat = z + n

private theorem isDigit_iff (c : Char) : isDigit c = true ↔ IsDecimal c := by
  simp only [isDigit, List.any_eq_true, Bool.and_eq_true, decide_eq_true_eq]
  constructor
  · rintro ⟨z, hz, hle, hlt⟩
    exact ⟨z, hz, c.toNat - z, by omega, by omega⟩
  · rintro ⟨z, hz, n, hn, hc⟩
    exact ⟨z, hz, by omega, by omega⟩

end Text

namespace NumberLiteral

def digit : Language Char := {s | ∃ c, Text.IsDecimal c ∧ s = [c]}

def sign : Language Char := {['+'], ['-']}

def point : Language Char := {['.']}

def mark : Language Char := {['e'], ['E']}

def digits : Language Char := digit * digit∗

def mantissa : Language Char := digits * (1 + point * digit∗) + point * digits

def exponent : Language Char := mark * (1 + sign) * digits

def unsigned : Language Char := mantissa * (1 + exponent)

/-- Number literals: `sign? (D+ ('.' D*)? | '.' D+) ([eE] sign? D+)?`. -/
def language : Language Char := (1 + sign) * unsigned

variable {s : List Char}

private theorem mem_digit_star : s ∈ digit∗ ↔ ∀ c ∈ s, Text.isDigit c = true := by
  constructor
  · rintro ⟨parts, rfl, hparts⟩ c hc
    obtain ⟨part, hpart, hmem⟩ := List.mem_flatten.mp hc
    obtain ⟨c', hdigit, rfl⟩ := hparts part hpart
    rw [List.mem_singleton.mp hmem]
    exact (Text.isDigit_iff c').mpr hdigit
  · intro hs
    refine ⟨s.map fun c => [c], ?_, ?_⟩
    · exact (List.flatMap_singleton' s).symm
    · intro part hpart
      obtain ⟨c, hc, rfl⟩ := List.mem_map.mp hpart
      exact ⟨c, (Text.isDigit_iff c).mp (hs c hc), rfl⟩

private theorem mem_digits : s ∈ digits ↔ s ≠ [] ∧ ∀ c ∈ s, Text.isDigit c = true := by
  rw [digits, Language.mem_mul]
  constructor
  · rintro ⟨_, ⟨c, hc, rfl⟩, rest, hrest, rfl⟩
    refine ⟨List.cons_ne_nil c rest, ?_⟩
    simpa [(Text.isDigit_iff c).mpr hc] using mem_digit_star.mp hrest
  · rintro ⟨hne, hs⟩
    cases s with
    | nil => exact absurd rfl hne
    | cons c rest =>
      refine ⟨[c], ⟨c, (Text.isDigit_iff c).mp (hs c List.mem_cons_self), rfl⟩, rest, ?_, rfl⟩
      exact mem_digit_star.mpr fun x hx => hs x (List.mem_cons_of_mem c hx)

private theorem isDigits_iff : ValueType.isDigits s = true ↔ s ∈ digits := by
  simp [mem_digits, ValueType.isDigits]

private theorem dropSign_mem_iff {l : Language Char}
    (hl : ∀ t ∈ l, ∀ c ∈ t.head?, c ≠ '+' ∧ c ≠ '-') :
    ValueType.dropSign s ∈ l ↔ s ∈ (1 + sign) * l := by
  rw [Language.mem_mul]
  constructor
  · intro h
    fun_cases ValueType.dropSign s with
    | case1 t => exact ⟨['+'], .inr (.inl rfl), t, h, rfl⟩
    | case2 t => exact ⟨['-'], .inr (.inr rfl), t, h, rfl⟩
    | case3 t hplus hminus => exact ⟨[], .inl rfl, s, by simpa [ValueType.dropSign] using h, rfl⟩
  · rintro ⟨lead, hlead, t, ht, rfl⟩
    rcases hlead with rfl | rfl | rfl
    · have hbare : ValueType.dropSign t = t := by
        fun_cases ValueType.dropSign t with
        | case1 u => exact absurd rfl (hl _ ht '+' rfl).1
        | case2 u => exact absurd rfl (hl _ ht '-' rfl).2
        | case3 => rfl
      rw [List.nil_append, hbare]
      exact ht
    · exact ht
    · exact ht

private theorem isDigit_point : Text.isDigit '.' = false := by decide

private theorem ne_sign_of_isDigit {c : Char} (h : Text.isDigit c = true) : c ≠ '+' ∧ c ≠ '-' := by
  constructor
  · rintro rfl
    exact absurd h (by decide)
  · rintro rfl
    exact absurd h (by decide)

private theorem isExponent_iff : ValueType.isExponent s = true ↔ s ∈ 1 + exponent := by
  have hsign : ∀ t ∈ digits, ∀ c ∈ t.head?, c ≠ '+' ∧ c ≠ '-' := by
    intro t ht c hc
    exact ne_sign_of_isDigit ((mem_digits.mp ht).2 c (List.mem_of_mem_head? hc))
  rw [Language.mem_add, Language.mem_one, exponent, mul_assoc, Language.mem_mul]
  constructor
  · intro h
    cases s with
    | nil => exact .inl rfl
    | cons c t =>
      simp only [ValueType.isExponent, Bool.and_eq_true, Bool.or_eq_true, beq_iff_eq] at h
      obtain ⟨hmark, hdigits⟩ := h
      have ht := (dropSign_mem_iff hsign).mp (isDigits_iff.mp hdigits)
      rcases hmark with rfl | rfl
      · exact .inr ⟨['e'], .inl rfl, t, ht, rfl⟩
      · exact .inr ⟨['E'], .inr rfl, t, ht, rfl⟩
  · rintro (rfl | ⟨_, hmark, t, ht, rfl⟩)
    · rfl
    · have hdigits := isDigits_iff.mpr ((dropSign_mem_iff hsign).mpr ht)
      rcases hmark with rfl | rfl
      · simpa [ValueType.isExponent] using hdigits
      · simpa [ValueType.isExponent] using hdigits

private theorem head?_of_mem_exponent (h : s ∈ 1 + exponent) :
    ∀ c ∈ s.head?, Text.isDigit c = false ∧ c ≠ '.' := by
  intro c hc
  rw [Language.mem_add, exponent, mul_assoc, Language.mem_mul] at h
  rcases h with rfl | ⟨_, hmark, t, -, rfl⟩
  · cases hc
  · rcases hmark with rfl | rfl
    · obtain rfl := Option.some.inj hc
      decide
    · obtain rfl := Option.some.inj hc
      decide

private theorem mem_unsigned : s ∈ unsigned ↔ ∃ whole, (∀ c ∈ whole, Text.isDigit c = true) ∧
    ((whole ≠ [] ∧ ∃ e ∈ 1 + exponent, s = whole ++ e) ∨
      ∃ fraction, (∀ c ∈ fraction, Text.isDigit c = true) ∧ (whole ≠ [] ∨ fraction ≠ []) ∧
        ∃ e ∈ 1 + exponent, s = whole ++ '.' :: (fraction ++ e)) := by
  rw [unsigned, Language.mem_mul]
  constructor
  · rintro ⟨m, hm, e, he, rfl⟩
    rcases hm with ⟨whole, hwhole, rest, hrest, rfl⟩ | ⟨_, rfl, fraction, hfraction, rfl⟩
    · obtain ⟨hne, hwhole⟩ := mem_digits.mp hwhole
      refine ⟨whole, hwhole, ?_⟩
      rcases hrest with rfl | ⟨_, rfl, fraction, hfraction, rfl⟩
      · exact .inl ⟨hne, e, he, by simp⟩
      · exact .inr ⟨fraction, mem_digit_star.mp hfraction, .inl hne, e, he, by simp⟩
    · obtain ⟨hne, hfraction⟩ := mem_digits.mp hfraction
      exact ⟨[], by simp, .inr ⟨fraction, hfraction, .inr hne, e, he, by simp⟩⟩
  · rintro ⟨whole, hwhole, ⟨hne, e, he, rfl⟩ | ⟨fraction, hfraction, hne, e, he, rfl⟩⟩
    · refine ⟨whole, .inl ?_, e, he, rfl⟩
      exact ⟨whole, mem_digits.mpr ⟨hne, hwhole⟩, [], .inl rfl, List.append_nil whole⟩
    · refine ⟨whole ++ '.' :: fraction, ?_, e, he, by simp⟩
      by_cases hw : whole = []
      · have hf : fraction ≠ [] := hne.resolve_left fun h => h hw
        subst hw
        exact .inr ⟨['.'], rfl, fraction, mem_digits.mpr ⟨hf, hfraction⟩, rfl⟩
      · refine .inl ⟨whole, mem_digits.mpr ⟨hw, hwhole⟩, '.' :: fraction, .inr ?_, rfl⟩
        exact ⟨['.'], rfl, fraction, mem_digit_star.mpr hfraction, rfl⟩

private theorem span_digits {ds t : List Char} (hds : ∀ c ∈ ds, Text.isDigit c = true)
    (ht : ∀ c ∈ t.head?, Text.isDigit c = false) :
    (ds ++ t).takeWhile Text.isDigit = ds ∧ (ds ++ t).dropWhile Text.isDigit = t := by
  rw [List.takeWhile_append_of_pos hds, List.dropWhile_append_of_pos hds]
  cases t with
  | nil => simp
  | cons c t =>
    have hc : ¬Text.isDigit c = true := by simp [ht c rfl]
    rw [List.takeWhile_cons_of_neg hc, List.dropWhile_cons_of_neg hc, List.append_nil]
    exact ⟨rfl, rfl⟩

private theorem isUnsignedNumber_iff : ValueType.isUnsignedNumber s = true ↔ s ∈ unsigned := by
  rw [mem_unsigned]
  constructor
  · intro h
    -- the digits in front are the whole part, whichever of the two forms follows
    have hsplit := List.takeWhile_append_dropWhile (p := Text.isDigit) (l := s)
    have hdigits (t : List Char) : ∀ c ∈ t.takeWhile Text.isDigit, Text.isDigit c = true :=
      fun c hc => List.mem_takeWhile_imp hc
    refine ⟨s.takeWhile Text.isDigit, hdigits s, ?_⟩
    unfold ValueType.isUnsignedNumber at h
    split at h
    next t hrest =>
      rw [Bool.if_false_left, Bool.and_eq_true] at h
      obtain ⟨hne, hexp⟩ := h
      refine .inr ⟨t.takeWhile Text.isDigit, hdigits t, ?_, t.dropWhile Text.isDigit,
        isExponent_iff.mp hexp, ?_⟩
      · rw [Bool.not_eq_true', decide_eq_false_iff_not, Bool.and_eq_true, List.isEmpty_iff,
          List.isEmpty_iff] at hne
        exact not_and_or.mp hne
      · rw [List.takeWhile_append_dropWhile, ← hrest, hsplit]
    next t hrest =>
      rw [Bool.and_eq_true] at h
      obtain ⟨hne, hexp⟩ := h
      exact .inl ⟨by simpa using hne, _, isExponent_iff.mp hexp, hsplit.symm⟩
  · rintro ⟨whole, hwhole, ⟨hne, e, he, rfl⟩ | ⟨fraction, hfraction, hne, e, he, rfl⟩⟩
    · -- an exponent starts with no digit, so the reader stops where the whole part does
      have hhead := head?_of_mem_exponent he
      obtain ⟨htake, hdrop⟩ := span_digits hwhole fun c hc => (hhead c hc).1
      unfold ValueType.isUnsignedNumber
      rw [htake, hdrop]
      split
      next t => exact absurd rfl (hhead '.' rfl).2
      next => simp [hne, isExponent_iff.mpr he]
    · obtain ⟨htake, hdrop⟩ := span_digits (t := '.' :: (fraction ++ e)) hwhole (by
        intro c hc
        rw [← Option.some.inj hc]
        exact isDigit_point)
      obtain ⟨hftake, hfdrop⟩ := span_digits hfraction fun c hc => (head?_of_mem_exponent he c hc).1
      unfold ValueType.isUnsignedNumber
      simp only [htake, hdrop, hftake, ValueType.isFraction, hfdrop, isExponent_iff.mpr he]
      simpa [or_iff_not_imp_left] using hne

private theorem starts_of_mem_unsigned (h : s ∈ unsigned) :
    ∃ c ∈ s.head?, Text.isDigit c = true ∨ c = '.' := by
  obtain ⟨whole, hwhole, h⟩ := mem_unsigned.mp h
  cases whole with
  | cons c whole =>
    refine ⟨c, ?_, .inl (hwhole c List.mem_cons_self)⟩
    rcases h with ⟨-, e, -, rfl⟩ | ⟨fraction, -, -, e, -, rfl⟩
    · rfl
    · rfl
  | nil =>
    rcases h with ⟨hne, -⟩ | ⟨fraction, -, -, e, -, rfl⟩
    · exact absurd rfl hne
    · exact ⟨'.', rfl, .inr rfl⟩

theorem isNumber_iff : ValueType.isNumber s = true ↔ s ∈ language := by
  rw [ValueType.isNumber, isUnsignedNumber_iff, language]
  refine dropSign_mem_iff fun t ht c hc => ?_
  obtain ⟨c', hc', hstart⟩ := starts_of_mem_unsigned ht
  obtain rfl := Option.some.inj (hc.symm.trans hc')
  rcases hstart with hdigit | rfl
  · exact ne_sign_of_isDigit hdigit
  · decide

private theorem head?_of_mem_language (h : s ∈ language) :
    ∃ c ∈ s.head?, Text.isDigit c = true ∨ c ∈ ['.', '+', '-'] := by
  obtain ⟨lead, hlead, t, ht, rfl⟩ := h
  have hlead : lead = [] ∨ lead = ['+'] ∨ lead = ['-'] := hlead
  rcases hlead with rfl | rfl | rfl
  · obtain ⟨c, hc, hstart⟩ := starts_of_mem_unsigned ht
    exact ⟨c, hc, hstart.imp_right fun h => by simp [h]⟩
  · exact ⟨'+', rfl, .inr (by decide)⟩
  · exact ⟨'-', rfl, .inr (by decide)⟩

end NumberLiteral

namespace Text

def SameLetter (c c' : Char) : Prop :=
  c = c' ∨ ('A' ≤ c ∧ c ≤ 'Z' ∧ c'.toNat = c.toNat + 32) ∨
    ('A' ≤ c' ∧ c' ≤ 'Z' ∧ c.toNat = c'.toNat + 32)

def TruthWord (s : List Char) : Prop :=
  s.Forall₂ SameLetter ['t', 'r', 'u', 'e'] ∨ s.Forall₂ SameLetter ['f', 'a', 'l', 's', 'e']

structure TrimsTo (s t : List Char) : Prop where
  split : ∃ lead trail, s = lead ++ (t ++ trail) ∧ Blank lead ∧ Blank trail
  head : ∀ c ∈ t.head?, isBlank c = false
  last : ∀ c ∈ t.getLast?, isBlank c = false

private theorem trimsTo_trim (s : List Char) : TrimsTo s (trim s) := by
  obtain ⟨trail, hs, htrail⟩ := exists_trail s
  refine ⟨⟨s.takeWhile isBlank, trail, hs, ?_, ?_⟩, head?_trim s, getLast?_trimEnd _⟩
  · exact isBlankText_iff.mp (isBlankText_takeWhile s)
  · exact isBlankText_iff.mp htrail

private theorem capital_iff (c : Char) : 'A' ≤ c ∧ c ≤ 'Z' ↔ 65 ≤ c.toNat ∧ c.toNat ≤ 90 := by
  rw [Char.le_def, Char.le_def, UInt32.le_iff_toNat_le, UInt32.le_iff_toNat_le]
  rfl

private theorem toNat_toLower (c : Char) :
    c.toLower.toNat = if 65 ≤ c.toNat ∧ c.toNat ≤ 90 then c.toNat + 32 else c.toNat := by
  unfold Char.toLower
  split
  next hc =>
    have hrange := (capital_iff c).mp hc
    rw [if_pos hrange, Char.toNat_mk, UInt32.toNat_add]
    change (c.toNat + 32) % 2 ^ 32 = c.toNat + 32
    omega
  next hc => rw [if_neg fun hrange => hc ((capital_iff c).mpr hrange)]

private theorem toLower_eq_iff (c c' : Char) : c.toLower = c'.toLower ↔ SameLetter c c' := by
  rw [SameLetter, ← and_assoc, ← and_assoc, capital_iff, capital_iff, ← Char.toNat_inj,
    toNat_toLower, toNat_toLower, ← Char.toNat_inj]
  split <;> split <;> omega

private theorem eq_or_eq_of_sameLetter {c small : Char} (capital : Char) (h : SameLetter c small)
    (hcapital : 'A' ≤ capital ∧ capital ≤ 'Z') (hsmall : small.toNat = capital.toNat + 32) :
    c = small ∨ c = capital := by
  rw [capital_iff] at hcapital
  rw [SameLetter, ← and_assoc, ← and_assoc, capital_iff, capital_iff, ← Char.toNat_inj] at h
  rw [← Char.toNat_inj, ← Char.toNat_inj]
  omega

private theorem head?_of_truthWord {s : List Char} (h : TruthWord s) :
    ∃ c ∈ s.head?, c ∈ ['t', 'T', 'f', 'F'] := by
  rcases h with h | h
  · obtain ⟨c, s, hc, -, rfl⟩ := List.forall₂_cons_right_iff.mp h
    refine ⟨c, rfl, ?_⟩
    rcases eq_or_eq_of_sameLetter 'T' hc (by decide) rfl with rfl | rfl
    · decide
    · decide
  · obtain ⟨c, s, hc, -, rfl⟩ := List.forall₂_cons_right_iff.mp h
    refine ⟨c, rfl, ?_⟩
    rcases eq_or_eq_of_sameLetter 'F' hc (by decide) rfl with rfl | rfl
    · decide
    · decide

end Text

namespace ValueType

private theorem sameWord_iff (s t : List Char) :
    sameWord s t = true ↔ s.Forall₂ Text.SameLetter t := by
  rw [sameWord, beq_iff_eq, ← List.forall₂_eq_eq_eq, List.forall₂_map_left_iff,
    List.forall₂_map_right_iff]
  simp only [Text.toLower_eq_iff]

theorem isBoolean_iff (s : List Char) : isBoolean s = true ↔ Text.TruthWord s := by
  rw [isBoolean, Bool.or_eq_true, sameWord_iff, sameWord_iff]
  rfl

private theorem not_truthWord_of_mem_language {s : List Char} (h : s ∈ NumberLiteral.language) :
    ¬Text.TruthWord s := by
  intro htruth
  -- the first characters tell the two apart
  obtain ⟨c, hc, hletter⟩ := Text.head?_of_truthWord htruth
  obtain ⟨c', hc', hstart⟩ := NumberLiteral.head?_of_mem_language h
  obtain rfl := Option.some.inj (hc'.symm.trans hc)
  simp only [List.mem_cons, List.not_mem_nil, or_false] at hletter
  rcases hletter with rfl | rfl | rfl | rfl <;> exact absurd hstart (by decide)

end ValueType

private theorem Entry.type_eq_infer {r : DetectionRules} {d : Document} {b : Block}
    (hb : b ∈ (Detection.ofDocument r d).blocks) {e : Entry} (he : e ∈ b.entries) :
    e.type = ValueType.infer e.value := by
  obtain ⟨l, -, hentry⟩ := Block.exists_line_of_mem_entries hb he
  obtain ⟨f, -, hof⟩ := LineKind.exists_field (l := l) (by rw [hentry]; rfl)
  rw [hentry, LineKind.ofField] at hof
  cases hk : Keyword.ofKey? f.key with
  | some w => simp [hk] at hof
  | none =>
    simp only [hk, LineKind.entry.injEq] at hof
    rw [hof]

namespace ValueType

/-- The type of a value is told by the language its trimmed text belongs to, number literals and
truth words have nothing in common, and every detected entry has the type of its value. -/
theorem infer_reads_literals (value : List Char) :
    Text.TrimsTo value (Text.trim value) ∧
    (infer value = .number ↔ Text.trim value ∈ NumberLiteral.language) ∧
    (infer value = .boolean ↔
      Text.trim value ∉ NumberLiteral.language ∧ Text.TruthWord (Text.trim value)) ∧
    (infer value = .string ↔
      Text.trim value ∉ NumberLiteral.language ∧ ¬Text.TruthWord (Text.trim value)) ∧
    (∀ s ∈ NumberLiteral.language, ¬Text.TruthWord s) ∧
    ∀ r d, ∀ b ∈ (Detection.ofDocument r d).blocks, ∀ e ∈ b.entries, e.type = infer e.value := by
  have hinfer : infer value = if isNumber (Text.trim value) then .number
      else if isBoolean (Text.trim value) then .boolean else .string := rfl
  refine ⟨Text.trimsTo_trim value, ?_, ?_, ?_, fun s hs => not_truthWord_of_mem_language hs,
    fun r d b hb e he => Entry.type_eq_infer hb he⟩
  all_goals
    simp only [hinfer, ← NumberLiteral.isNumber_iff, ← isBoolean_iff]
    cases isNumber (Text.trim value) <;> cases isBoolean (Text.trim value) <;> simp

theorem infer_reads_literals_foreignDigit :
    let d : Document := .ofText "---\nn: -.5E+\u0663\n---\n".toList
    let e : Entry := ⟨2, ['n'], ⟨4, 5⟩, "-.5E+\u0663".toList, ⟨7, 13⟩, .number⟩
    let value : List Char := "\u3000-.5E+\u0663\t".toList
    (∃ b ∈ (Detection.ofDocument {} d).blocks, e ∈ b.entries ∧ e.type = infer e.value) ∧
      Text.trim value = e.value ∧ infer value = .number ∧ e.value ∈ NumberLiteral.language ∧
      ¬Text.TruthWord e.value := by
  intro d e value
  have hentry : ∃ b ∈ (Detection.ofDocument {} d).blocks, e ∈ b.entries := by decide +kernel
  have htrim : Text.trim value = e.value := by decide +kernel
  have hinfer : infer value = .number := by decide +kernel
  obtain ⟨-, hnumber, -, -, hapart, htype⟩ := infer_reads_literals value
  have hlanguage : e.value ∈ NumberLiteral.language := by
    rw [← htrim]
    exact hnumber.mp hinfer
  obtain ⟨b, hb, he⟩ := hentry
  exact ⟨⟨b, hb, he, htype {} d b hb e he⟩, htrim, hinfer, hlanguage, hapart _ hlanguage⟩

end ValueType

end MetaBlocks
