import Mathlib.Data.List.Forall2
import Mathlib.Data.Nat.Digits.Defs
import MetaBlocks.Proofs.Numerals
import MetaBlocks.Yaml.CoreValue

/-!
Natural numbers as YAML writes them: decimal digits without a needless zero in front, or the digits
of another base behind its mark, with a plus sign or none. The reader tries the bases one after the
other and turns to decimal digits last; it reads exactly these numbers, because no two marks start
alike and no decimal number starts like a mark.
-/

set_option autoImplicit false
set_option relaxedAutoImplicit false

namespace MetaBlocks.Yaml

namespace Numeral

/-- The digits from zero on, in either case of letters. -/
def digitRows : List String := ["0123456789abcdef", "0123456789ABCDEF"]

def IsDigit (c : Char) (k : Nat) : Prop := ∃ row ∈ digitRows, row.toList[k]? = some c

/-- Digits of a base, the one of greatest weight first. -/
def Spells (base : Nat) (s : List Char) (n : Nat) : Prop :=
  ∃ ks, ks ≠ [] ∧ (∀ k ∈ ks, k < base) ∧ List.Forall₂ IsDigit s ks ∧
    Nat.ofDigits base ks.reverse = n

def marks : List (String × Nat) := [("0x", 16), ("0o", 8), ("0b", 2)]

/-- Zero is the only decimal number that starts with a zero. -/
inductive Unsigned : List Char → Nat → Prop
  | decimal {s : List Char} {n : Nat} (spells : Spells 10 s n)
      (lean : s.head? = some '0' → s = ['0']) : Unsigned s n
  | marked {mark : String} {base : Nat} {s : List Char} {n : Nat} (known : (mark, base) ∈ marks)
      (spells : Spells base s n) : Unsigned (mark.toList ++ s) n

def Writes (s : List Char) (n : Nat) : Prop := ∃ t, Number.Signed s t ∧ Unsigned t n

end Numeral

namespace CoreValue

open Numeral

private theorem toNat_lt_of_hexDigit? {c : Char} {k : Nat} (h : Scalar.hexDigit? c = some k) :
    c.toNat < 128 := by
  have hbound {high : Char} (hc : c ≤ high) (hhigh : high.toNat < 128) : c.toNat < 128 :=
    Nat.lt_of_le_of_lt hc hhigh
  unfold Scalar.hexDigit? at h
  simp only [Bool.and_eq_true, decide_eq_true_eq] at h
  split at h
  · next hc => exact hbound hc.2 (by decide)
  · split at h
    · next hc => exact hbound hc.2 (by decide)
    · split at h
      · next hc => exact hbound hc.2 (by decide)
      · cases h

private theorem hexDigit?_eq_some_iff {c : Char} {k : Nat} :
    Scalar.hexDigit? c = some k ↔ IsDigit c k := by
  constructor
  · intro h
    have hrows : ∀ n < 128, (Scalar.hexDigit? (Char.ofNat n)).all (fun k =>
        digitRows.any fun row => row.toList[k]? == some (Char.ofNat n)) = true := by decide +kernel
    have hrow := hrows c.toNat (toNat_lt_of_hexDigit? h)
    rw [Char.ofNat_toNat, h, Option.all_some, List.any_eq_true] at hrow
    simpa [IsDigit] using hrow
  · rintro ⟨row, hmem, hc⟩
    have hdigits : ∀ k < 16, digitRows.all (fun row =>
        row.toList[k]?.all fun c => Scalar.hexDigit? c == some k) = true := by decide +kernel
    have hlength : ∀ row ∈ digitRows, row.toList.length = 16 := by decide +kernel
    have hk := (List.getElem?_eq_some_iff.mp hc).1
    rw [hlength row hmem] at hk
    have hdigit := List.all_eq_true.mp (hdigits k hk) row hmem
    rw [hc, Option.all_some, beq_iff_eq] at hdigit
    exact hdigit

private theorem digit?_eq_some_iff {base : Nat} {c : Char} {k : Nat} :
    digit? base c = some k ↔ IsDigit c k ∧ k < base := by
  rw [digit?, Option.filter_eq_some_iff, hexDigit?_eq_some_iff, decide_eq_true_eq]

private theorem foldl_digit?_none {base : Nat} (s : List Char) :
    s.foldl (fun n c => do return base * (← n) + (← digit? base c)) none = none := by
  induction s with
  | nil => rfl
  | cons c s ih => exact ih

private theorem foldl_digit?_eq_some_iff {base m n : Nat} {s : List Char} :
    s.foldl (fun n c => do return base * (← n) + (← digit? base c)) (some m) = some n ↔
      ∃ ks, (∀ k ∈ ks, k < base) ∧ List.Forall₂ IsDigit s ks ∧
        ks.foldl (fun n k => base * n + k) m = n := by
  induction s generalizing m with
  | nil => simp
  | cons c s ih =>
    rw [List.foldl_cons]
    cases hc : digit? base c with
    | none =>
      change s.foldl _ none = some n ↔ _
      rw [foldl_digit?_none]
      constructor
      · intro h
        cases h
      · rintro ⟨_, hks, hs, -⟩
        cases hs with
        | cons hdigit _ =>
          rw [digit?_eq_some_iff.mpr ⟨hdigit, hks _ List.mem_cons_self⟩] at hc
          cases hc
    | some k =>
      change s.foldl _ (some (base * m + k)) = some n ↔ _
      obtain ⟨hdigit, hk⟩ := digit?_eq_some_iff.mp hc
      rw [ih]
      constructor
      · rintro ⟨ks, hks, hs, hn⟩
        exact ⟨k :: ks, List.forall_mem_cons.mpr ⟨hk, hks⟩, .cons hdigit hs, hn⟩
      · rintro ⟨_, hks, hs, hn⟩
        cases hs with
        | @cons _ j _ ks hother hs =>
          obtain ⟨hj, hks⟩ := List.forall_mem_cons.mp hks
          rw [digit?_eq_some_iff.mpr ⟨hother, hj⟩, Option.some.injEq] at hc
          subst hc
          exact ⟨ks, hks, hs, hn⟩

private theorem digits?_eq_some_iff {base n : Nat} {s : List Char} :
    digits? base s = some n ↔ Spells base s n := by
  have hvalue (ks : List Nat) :
      Nat.ofDigits base ks.reverse = ks.foldl (fun n k => base * n + k) 0 := by
    simp [Nat.ofDigits_eq_foldr, Nat.add_comm]
  unfold digits? Spells
  cases s with
  | nil => simp
  | cons c s =>
    rw [List.isEmpty_cons, if_neg Bool.false_ne_true, foldl_digit?_eq_some_iff]
    constructor
    · rintro ⟨ks, hks, hs, hn⟩
      have hne : ks ≠ [] := by
        rintro rfl
        cases hs
      exact ⟨ks, hne, hks, hs, (hvalue ks).trans hn⟩
    · rintro ⟨ks, -, hks, hs, hn⟩
      exact ⟨ks, hks, hs, (hvalue ks).symm.trans hn⟩

private theorem after?_eq_some_iff {start s t : List Char} :
    after? start s = some t ↔ s = start ++ t := by
  unfold after?
  constructor
  · intro h
    split at h
    · next hstart =>
      obtain ⟨u, rfl⟩ := List.isPrefixOf_iff_prefix.mp hstart
      rw [List.drop_left, Option.some.injEq] at h
      rw [h]
    · cases h
  · rintro rfl
    rw [if_pos (List.isPrefixOf_iff_prefix.mpr (List.prefix_append start t)), List.drop_left]

private theorem marked?_eq_some_iff {mark s : List Char} {base limit n : Nat} :
    marked? mark base limit s = some n ↔
      n ≤ limit ∧ ∃ t, s = mark ++ t ∧ Spells base t n := by
  unfold marked?
  simp only [Option.bind_eq_bind, Option.bind_eq_some_iff, after?_eq_some_iff, digits?_eq_some_iff,
    Option.ite_none_right_eq_some, Option.some.injEq]
  constructor
  · rintro ⟨t, rfl, m, hspells, hle, rfl⟩
    exact ⟨hle, t, rfl, hspells⟩
  · rintro ⟨hle, t, rfl, hspells⟩
    exact ⟨t, rfl, n, hspells, hle, rfl⟩

private theorem mem_marks_iff {mark : String} {base : Nat} : (mark, base) ∈ marks ↔
    mark = "0x" ∧ base = 16 ∨ mark = "0o" ∧ base = 8 ∨ mark = "0b" ∧ base = 2 := by
  simp [marks]

/-- No two marks start alike, so it does not matter which of them is tried first. -/
private theorem basedNumber?_eq_some_iff {limit n : Nat} {s : List Char} :
    basedNumber? [] limit s = some n ↔ n ≤ limit ∧ ∃ mark base t, (mark, base) ∈ marks ∧
      s = mark.toList ++ t ∧ Spells base t n := by
  have hother {mark other t : List Char} {base : Nat} (hlength : other.length = mark.length)
      (hne : other ≠ mark) : marked? other base limit (mark ++ t) = none := by
    refine Option.eq_none_iff_forall_ne_some.mpr fun m hm => ?_
    obtain ⟨-, u, hu, -⟩ := marked?_eq_some_iff.mp hm
    exact hne (List.append_inj_left hu.symm hlength)
  constructor
  · intro h
    simp only [basedNumber?, Option.or_eq_some_iff] at h
    rcases h with (h | ⟨-, h⟩) | ⟨-, h⟩
    · obtain ⟨hle, t, rfl, hspells⟩ := marked?_eq_some_iff.mp h
      exact ⟨hle, "0x", 16, t, mem_marks_iff.mpr (by simp), rfl, hspells⟩
    · obtain ⟨hle, t, rfl, hspells⟩ := marked?_eq_some_iff.mp h
      exact ⟨hle, "0o", 8, t, mem_marks_iff.mpr (by simp), rfl, hspells⟩
    · obtain ⟨hle, t, rfl, hspells⟩ := marked?_eq_some_iff.mp h
      exact ⟨hle, "0b", 2, t, mem_marks_iff.mpr (by simp), rfl, hspells⟩
  · rintro ⟨hle, mark, base, t, hmark, rfl, hspells⟩
    have hread : marked? mark.toList base limit (mark.toList ++ t) = some n :=
      marked?_eq_some_iff.mpr ⟨hle, t, rfl, hspells⟩
    unfold basedNumber?
    rcases mem_marks_iff.mp hmark with ⟨rfl, rfl⟩ | ⟨rfl, rfl⟩ | ⟨rfl, rfl⟩
    · exact Option.or_eq_some_iff.mpr (.inl (Option.or_eq_some_iff.mpr (.inl hread)))
    · refine Option.or_eq_some_iff.mpr (.inl (Option.or_eq_some_iff.mpr (.inr ⟨?_, hread⟩)))
      exact hother rfl (by decide)
    · refine Option.or_eq_some_iff.mpr (.inr ⟨Option.or_eq_none_iff.mpr ⟨?_, ?_⟩, hread⟩)
      · exact hother rfl (by decide)
      · exact hother rfl (by decide)

private theorem isDigit_of_isDigit {c : Char} {k : Nat} (h : IsDigit c k) (hk : k < 10) :
    c.isDigit = true := by
  obtain ⟨row, hmem, hc⟩ := h
  have hrows : ∀ k < 10, digitRows.all (fun row => row.toList[k]?.all Char.isDigit) = true := by
    decide +kernel
  have hrow := List.all_eq_true.mp (hrows k hk) row hmem
  rwa [hc, Option.all_some] at hrow

private theorem isDigit_of_spells {s : List Char} {n : Nat} (h : Spells 10 s n) :
    s ≠ [] ∧ ∀ c ∈ s, c.isDigit = true := by
  obtain ⟨ks, hne, hks, hs, -⟩ := h
  constructor
  · rintro rfl
    cases hs
    exact hne rfl
  · clear hne
    induction hs with
    | nil => simp
    | cons hdigit _ ih =>
      obtain ⟨hk, hks⟩ := List.forall_mem_cons.mp hks
      exact List.forall_mem_cons.mpr ⟨isDigit_of_isDigit hdigit hk, ih hks⟩

private theorem head?_of_unsigned {s : List Char} {n : Nat} (h : Unsigned s n) :
    ∃ c ∈ s.head?, c.isDigit = true := by
  cases h with
  | decimal hspells _ =>
    obtain ⟨hne, hdigits⟩ := isDigit_of_spells hspells
    exact ⟨s.head hne, List.head?_eq_some_head hne, hdigits _ (List.head_mem hne)⟩
  | marked hmark _ =>
    rcases mem_marks_iff.mp hmark with ⟨rfl, -⟩ | ⟨rfl, -⟩ | ⟨rfl, -⟩ <;> exact ⟨'0', rfl, rfl⟩

private theorem signed_dropPlus (s : List Char) : Number.Signed s (dropPlus s) := by
  unfold dropPlus
  cases h : after? ['+'] s with
  | none => exact .inl rfl
  | some t => exact .inr (after?_eq_some_iff.mp h)

private theorem dropPlus_of_signed {s t : List Char} (h : Number.Signed s t)
    (ht : ∃ c ∈ t.head?, c.isDigit = true) : dropPlus s = t := by
  unfold dropPlus
  rcases h with rfl | rfl
  · cases h : after? ['+'] s with
    | none => rfl
    | some u =>
      obtain ⟨c, hc, hdigit⟩ := ht
      rw [after?_eq_some_iff.mp h] at hc
      obtain rfl : '+' = c := Option.some.inj hc
      cases hdigit
  · have hplus : after? ['+'] ('+' :: t) = some t := after?_eq_some_iff.mpr rfl
    rw [hplus, Option.getD_some]

private theorem isZeroPadded_iff {s t : List Char} (h : Number.Signed s t) (hne : t ≠ [])
    (ht : ∀ c ∈ t, c.isDigit = true) :
    isZeroPadded s = true ↔ t.head? = some '0' ∧ t ≠ ['0'] := by
  have hbare : (if startsWithSign s then s.drop 1 else s) = t := by
    rcases h with rfl | rfl
    · cases s with
      | nil => rfl
      | cons c s =>
        have hc := ht c List.mem_cons_self
        rw [if_neg]
        simp only [startsWithSign, List.head?_cons, Option.any_some, Bool.or_eq_true, beq_iff_eq]
        rintro (rfl | rfl) <;> cases hc
    · rfl
  unfold isZeroPadded
  rw [hbare]
  cases t with
  | nil => exact absurd rfl hne
  | cons c t =>
    cases t with
    | nil => simp
    | cons _ _ => simpa using fun _ => ht

/-- What is read as a natural number is one that is written so and is not too large. -/
theorem unsigned?_eq_some_iff {limit n : Nat} {s : List Char} :
    unsigned? limit s = some n ↔ n ≤ limit ∧ Writes s n := by
  constructor
  · intro h
    unfold unsigned? at h
    dsimp only at h
    split at h
    · next m hbased =>
      cases h
      obtain ⟨hle, mark, base, t, hmark, hs, hspells⟩ := basedNumber?_eq_some_iff.mp hbased
      exact ⟨hle, dropPlus s, signed_dropPlus s, hs ▸ .marked hmark hspells⟩
    · split at h
      · cases h
      · next hpadded =>
        rw [Option.filter_eq_some_iff, digits?_eq_some_iff, decide_eq_true_eq] at h
        obtain ⟨hspells, hle⟩ := h
        obtain ⟨hne, hdigits⟩ := isDigit_of_spells hspells
        refine ⟨hle, dropPlus s, signed_dropPlus s, .decimal hspells fun hzero => ?_⟩
        by_contra hlong
        exact hpadded ((isZeroPadded_iff (signed_dropPlus s) hne hdigits).mpr ⟨hzero, hlong⟩)
  · rintro ⟨hle, t, hsigned, hwritten⟩
    simp only [unsigned?, dropPlus_of_signed hsigned (head?_of_unsigned hwritten)]
    cases hwritten with
    | marked hmark hspells =>
      rw [basedNumber?_eq_some_iff.mpr ⟨hle, _, _, _, hmark, rfl, hspells⟩]
    | decimal hspells hlean =>
      obtain ⟨hne, hdigits⟩ := isDigit_of_spells hspells
      have hplain : basedNumber? [] limit t = none := by
        refine Option.eq_none_iff_forall_ne_some.mpr fun m hm => ?_
        obtain ⟨-, mark, base, u, hmark, rfl, -⟩ := basedNumber?_eq_some_iff.mp hm
        rcases mem_marks_iff.mp hmark with ⟨rfl, -⟩ | ⟨rfl, -⟩ | ⟨rfl, -⟩
        · cases hdigits 'x' (by simp)
        · cases hdigits 'o' (by simp)
        · cases hdigits 'b' (by simp)
      have hpadded : ¬isZeroPadded s = true := fun h =>
        have hzero := (isZeroPadded_iff hsigned hne hdigits).mp h
        hzero.2 (hlean hzero.1)
      simp only [hplain, if_neg hpadded]
      rw [Option.filter_eq_some_iff, digits?_eq_some_iff, decide_eq_true_eq]
      exact ⟨hspells, hle⟩

end CoreValue

end MetaBlocks.Yaml
