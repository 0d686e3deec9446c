import MetaBlocks.Number.Decimal
import MetaBlocks.Proofs.Grammar
import MetaBlocks.Text.Decimal

/-!
Numbers in decimal digits, read and written. The reader checks the size of the number at each digit
and counts leading zeros as digits; it accepts a plus sign and one or more digits exactly when the
whole number fits. A written number tells where it ends, unless a digit follows.
-/

set_option autoImplicit false
set_option relaxedAutoImplicit false

namespace MetaBlocks

theorem append_inj_of_run {α : Type} {test : α → Bool} {s t u v : List α}
    (hs : ∀ x ∈ s, test x = true) (ht : ∀ x ∈ t, test x = true)
    (hu : ∀ x ∈ u.head?, test x = false) (hv : ∀ x ∈ v.head?, test x = false)
    (h : s ++ u = t ++ v) : s = t ∧ u = v := by
  induction s generalizing t with
  | nil =>
    cases t with
    | nil => exact ⟨rfl, h⟩
    | cons y t =>
      have hpass := ht y List.mem_cons_self
      have hstop := hu y (by rw [show u = y :: (t ++ v) from h]; rfl)
      simp [hpass] at hstop
  | cons x s ih =>
    cases t with
    | nil =>
      have hpass := hs x List.mem_cons_self
      have hstop := hv x (by rw [show v = x :: (s ++ u) from h.symm]; rfl)
      simp [hpass] at hstop
    | cons y t =>
      obtain ⟨rfl, hrest⟩ := List.cons.inj h
      obtain ⟨rfl, rfl⟩ := ih (fun z hz => hs z (List.mem_cons_of_mem x hz))
        (fun z hz => ht z (List.mem_cons_of_mem x hz)) hrest
      exact ⟨rfl, rfl⟩

namespace Text

theorem isDigit_of_mem_decimal {n : Nat} {c : Char} (h : c ∈ decimal n) : c.isDigit = true :=
  Nat.isDigit_of_mem_toDigits (by decide) (by decide) h

theorem decimal_ne_nil (n : Nat) : decimal n ≠ [] := Nat.toDigits_ne_nil

theorem ofDigitChars_decimal (n : Nat) : Nat.ofDigitChars 10 (decimal n) 0 = n :=
  Nat.ofDigitChars_ten_toDigits

theorem decimal_injective {m n : Nat} (h : decimal m = decimal n) : m = n := by
  rw [← ofDigitChars_decimal m, h, ofDigitChars_decimal]

theorem decimal_append_inj {m n : Nat} {s t : List Char} (hs : ∀ c ∈ s.head?, c.isDigit = false)
    (ht : ∀ c ∈ t.head?, c.isDigit = false) (h : decimal m ++ s = decimal n ++ t) :
    m = n ∧ s = t := by
  obtain ⟨hnumber, hrest⟩ := append_inj_of_run (fun _ hc => isDigit_of_mem_decimal hc)
    (fun _ hc => isDigit_of_mem_decimal hc) hs ht h
  exact ⟨decimal_injective hnumber, hrest⟩

theorem isDigit_iff_range (c : Char) : c.isDigit = true ↔ '0' ≤ c ∧ c ≤ '9' := by
  simp only [Char.isDigit, Bool.and_eq_true, decide_eq_true_eq]
  rfl

theorem isKeyChar_of_isDigit {c : Char} (h : c.isDigit = true) : LineKind.isKeyChar c = true :=
  (LineKind.isKeyChar_iff c).mpr (.inr (.inr (.inl ((isDigit_iff_range c).mp h))))

end Text

namespace Number

def Signed (s digits : List Char) : Prop := s = digits ∨ s = '+' :: digits

namespace Decimal

private theorem le_ofDigitChars (n : Nat) (s : List Char) : n ≤ Nat.ofDigitChars 10 s n := by
  induction s generalizing n with
  | nil => exact Nat.le_refl n
  | cons c s ih =>
    rw [Nat.ofDigitChars_cons]
    have hstep := ih (10 * n + (c.toNat - '0'.toNat))
    omega

private theorem push_eq_ok_iff {n m : Nat} {c : Char} : push n c = .ok m ↔
    c.isDigit = true ∧ m = 10 * n + (c.toNat - '0'.toNat) ∧ m < UInt64.size := by
  simp only [push]
  generalize 10 * n + (c.toNat - '0'.toNat) = k
  constructor
  · intro h
    split at h
    next hdigit =>
      split at h
      next hfits =>
        obtain rfl : k = m := Except.ok.inj h
        exact ⟨hdigit, rfl, hfits⟩
      next => cases h
    next => cases h
  · rintro ⟨hdigit, rfl, hfits⟩
    rw [if_pos hdigit, if_pos hfits]

/-- Digits are read as the number they write; no number on the way is larger than the last. -/
theorem readFrom_eq_ok_iff {n m : Nat} {s : List Char} (hn : n < UInt64.size) :
    readFrom n s = .ok m ↔
      (∀ c ∈ s, c.isDigit = true) ∧ m = Nat.ofDigitChars 10 s n ∧ m < UInt64.size := by
  induction s generalizing n with
  | nil =>
    rw [readFrom, Except.ok.injEq, Nat.ofDigitChars_nil]
    constructor
    · rintro rfl
      exact ⟨by simp, rfl, hn⟩
    · rintro ⟨-, rfl, -⟩
      rfl
  | cons c s ih =>
    rw [Nat.ofDigitChars_cons]
    constructor
    · intro h
      rw [readFrom] at h
      cases hpush : push n c with
      | error e =>
        rw [hpush] at h
        cases h
      | ok k =>
        rw [hpush] at h
        obtain ⟨hdigit, rfl, hk⟩ := push_eq_ok_iff.mp hpush
        obtain ⟨hdigits, hm, hfits⟩ := (ih hk).mp h
        exact ⟨by simpa [hdigit] using hdigits, hm, hfits⟩
    · rintro ⟨hdigits, hm, hfits⟩
      have hle := le_ofDigitChars (10 * n + (c.toNat - '0'.toNat)) s
      have hpush : push n c = .ok (10 * n + (c.toNat - '0'.toNat)) :=
        push_eq_ok_iff.mpr ⟨hdigits c List.mem_cons_self, rfl, by omega⟩
      rw [readFrom, hpush]
      refine (ih (by omega)).mpr ⟨?_, hm, hfits⟩
      intro c' hc'
      exact hdigits c' (List.mem_cons_of_mem c hc')

theorem read_signed {s digits : List Char} (h : Signed s digits) (hne : digits ≠ [])
    (hdigits : ∀ c ∈ digits, c.isDigit = true) : read s = readFrom 0 digits := by
  cases digits with
  | nil => exact absurd rfl hne
  | cons c t =>
    rcases h with rfl | rfl
    · have hplus : c ≠ '+' := by
        rintro rfl
        exact absurd (hdigits '+' List.mem_cons_self) (by decide)
      simp [read, hplus]
    · rfl

theorem read_eq_ok_iff {s : List Char} {n : Nat} : read s = .ok n ↔
    ∃ digits, Signed s digits ∧ digits ≠ [] ∧ (∀ c ∈ digits, c.isDigit = true) ∧
      n = Nat.ofDigitChars 10 digits 0 ∧ n < UInt64.size := by
  have hzero : 0 < UInt64.size := by decide
  constructor
  · intro h
    unfold read at h
    split at h
    next => cases h
    next => cases h
    next t ht => exact ⟨t, .inr rfl, fun hnil => ht (by rw [hnil]), (readFrom_eq_ok_iff hzero).mp h⟩
    next hnil _ _ => exact ⟨s, .inl rfl, hnil, (readFrom_eq_ok_iff hzero).mp h⟩
  · rintro ⟨digits, hsigned, hne, hdigits, hn, hfits⟩
    rw [read_signed hsigned hne hdigits]
    exact (readFrom_eq_ok_iff hzero).mpr ⟨hdigits, hn, hfits⟩

end Decimal

end Number

end MetaBlocks
