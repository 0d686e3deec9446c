import MetaBlocks.Command.Viewport
import MetaBlocks.Proofs.Numerals

/-!
The grammar of viewports as arguments: two dots between two sides, each a number with an optional
plus sign and blanks around it. No side holds a dot, so the first two dots are the ones between the
sides, and the reader accepts exactly the texts of the grammar whose numbers fit.
-/

set_option autoImplicit false
set_option relaxedAutoImplicit false

namespace MetaBlocks.Command.Viewport

/-- One side of a viewport: `blank* '+'? digit+ blank*`. -/
structure Side where
  lead : List Char
  sign : List Char
  digits : List Char
  trail : List Char
  blank_lead : Text.Blank lead
  sign_eq : sign = [] ∨ sign = ['+']
  digits_ne_nil : digits ≠ []
  digits_range : ∀ c ∈ digits, '0' ≤ c ∧ c ≤ '9'
  blank_trail : Text.Blank trail

namespace Side

variable (a : Side)

def text : List Char := a.lead ++ (a.sign ++ a.digits ++ a.trail)

def value : Nat := Nat.ofDigitChars 10 a.digits 0

private theorem isDigit_of_mem {c : Char} (h : c ∈ a.digits) : c.isDigit = true :=
  (Text.isDigit_iff_range c).mpr (a.digits_range c h)

private theorem isBlank_of_mem {c : Char} (h : c ∈ a.digits) : Text.isBlank c = false :=
  LineKind.isBlank_of_isKeyChar (Text.isKeyChar_of_isDigit (a.isDigit_of_mem h))

private theorem signed : Number.Signed (a.sign ++ a.digits) a.digits := by
  rcases a.sign_eq with hnone | hplus
  · rw [hnone]
    exact .inl rfl
  · rw [hplus]
    exact .inr rfl

private theorem trim_text : Text.trim a.text = a.sign ++ a.digits := by
  have hhead : ∀ c ∈ (a.sign ++ a.digits ++ a.trail).head?, Text.isBlank c = false := by
    intro c hc
    cases hdigits : a.digits with
    | nil => exact absurd hdigits a.digits_ne_nil
    | cons e t =>
      rcases a.sign_eq with hnone | hplus
      · rw [hnone, hdigits] at hc
        obtain rfl := Option.some.inj hc
        exact a.isBlank_of_mem (by rw [hdigits]; exact List.mem_cons_self)
      · rw [hplus] at hc
        obtain rfl := Option.some.inj hc
        decide
  have hlast : ∀ c ∈ (a.sign ++ a.digits).getLast?, Text.isBlank c = false := by
    intro c hc
    rw [List.getLast?_append_of_ne_nil _ a.digits_ne_nil] at hc
    exact a.isBlank_of_mem (List.mem_of_getLast? hc)
  rw [Text.trim, text, Text.trimStart_append (Text.isBlankText_iff.mpr a.blank_lead) hhead,
    Text.trimEnd_append _ (Text.isBlankText_iff.mpr a.blank_trail), Text.trimEnd_eq_self hlast]

private theorem dot_not_mem : '.' ∉ a.text := by
  have hdot : Text.isBlank '.' = false := by decide
  simp only [text, List.mem_append, not_or]
  refine ⟨?_, ⟨?_, ?_⟩, ?_⟩
  · intro h
    simp [a.blank_lead '.' h] at hdot
  · rcases a.sign_eq with h | h
    · simp [h]
    · simp [h]
  · intro h
    exact absurd (a.isDigit_of_mem h) (by decide)
  · intro h
    simp [a.blank_trail '.' h] at hdot

private theorem read_iff {n : Nat} :
    Number.Decimal.read (Text.trim a.text) = .ok n ↔ n = a.value ∧ n < UInt64.size := by
  rw [trim_text, Number.Decimal.read_signed a.signed a.digits_ne_nil fun _ h => a.isDigit_of_mem h,
    Number.Decimal.readFrom_eq_ok_iff (by decide)]
  constructor
  · intro h
    exact h.2
  · intro h
    exact ⟨fun _ hc => a.isDigit_of_mem hc, h⟩

end Side

private theorem exists_side {s : List Char} {n : Nat}
    (h : Number.Decimal.read (Text.trim s) = .ok n) :
    ∃ a : Side, s = a.text ∧ n = a.value ∧ n < UInt64.size := by
  obtain ⟨digits, hsigned, hne, hdigits, hn, hfits⟩ := Number.Decimal.read_eq_ok_iff.mp h
  obtain ⟨trail, hs, htrail⟩ := Text.exists_trail s
  have hlead : Text.Blank (s.takeWhile Text.isBlank) :=
    Text.isBlankText_iff.mp (Text.isBlankText_takeWhile s)
  have hrange : ∀ c ∈ digits, '0' ≤ c ∧ c ≤ '9' :=
    fun c hc => (Text.isDigit_iff_range c).mp (hdigits c hc)
  rcases hsigned with hbare | hplus
  · refine ⟨⟨_, [], digits, trail, hlead, .inl rfl, hne, hrange, Text.isBlankText_iff.mp htrail⟩,
      ?_, hn, hfits⟩
    rw [hbare] at hs
    exact hs
  · refine ⟨⟨_, ['+'], digits, trail, hlead, .inr rfl, hne, hrange, Text.isBlankText_iff.mp htrail⟩,
      ?_, hn, hfits⟩
    rw [hplus] at hs
    exact hs

private theorem eq_of_splitAtDots {s a b : List Char} (h : splitAtDots s = some (a, b)) :
    s = a ++ '.' :: '.' :: b := by
  fun_induction splitAtDots s generalizing a with
  | case1 s =>
    obtain ⟨rfl, rfl⟩ : [] = a ∧ s = b := by simpa using h
    rfl
  | case2 c s _ ih =>
    obtain ⟨⟨a', b'⟩, hsplit, hpair⟩ := Option.map_eq_some_iff.mp h
    obtain ⟨rfl, rfl⟩ : c :: a' = a ∧ b' = b := by simpa using hpair
    rw [ih hsplit, List.cons_append]
  | case3 => cases h

private theorem splitAtDots_append {a : List Char} (ha : '.' ∉ a) (b : List Char) :
    splitAtDots (a ++ '.' :: '.' :: b) = some (a, b) := by
  induction a with
  | nil => rfl
  | cons c a ih =>
    rw [List.mem_cons, not_or] at ha
    rw [List.cons_append, splitAtDots.eq_2 c _ fun _ hc _ => ha.1 hc.symm, ih ha.2, Option.map_some]

def Writes (s : List Char) (e : Extent) : Prop :=
  ∃ a b : Side, s = a.text ++ '.' :: '.' :: b.text ∧ e = ⟨a.value, b.value⟩ ∧
    a.value < UInt64.size ∧ b.value < UInt64.size

private theorem read_of_split {s a b : List Char} (h : splitAtDots s = some (a, b)) {e : Extent} :
    read s = .ok e ↔ Number.Decimal.read (Text.trim a) = .ok e.start ∧
      Number.Decimal.read (Text.trim b) = .ok e.stop := by
  simp only [read, h]
  generalize Number.Decimal.read (Text.trim a) = start
  generalize Number.Decimal.read (Text.trim b) = stop
  rcases start with x | n
  · constructor
    · intro hread
      cases hread
    · rintro ⟨hstart, -⟩
      cases hstart
  rcases stop with x | m
  · constructor
    · intro hread
      cases hread
    · rintro ⟨-, hstop⟩
      cases hstop
  constructor
  · intro hread
    obtain rfl : (⟨n, m⟩ : Extent) = e := Except.ok.inj hread
    exact ⟨rfl, rfl⟩
  · rintro ⟨hstart, hstop⟩
    obtain rfl := Except.ok.inj hstart
    obtain rfl := Except.ok.inj hstop
    rfl

theorem read_eq_ok_iff {s : List Char} {e : Extent} : read s = .ok e ↔ Writes s e := by
  constructor
  · intro h
    cases hsplit : splitAtDots s with
    | none =>
      rw [read, hsplit] at h
      cases h
    | some parts =>
      obtain ⟨hstart, hstop⟩ := (read_of_split hsplit).mp h
      obtain ⟨a, ha, hvalue, hfits⟩ := exists_side hstart
      obtain ⟨b, hb, hvalue', hfits'⟩ := exists_side hstop
      refine ⟨a, b, ?_, ?_, hvalue ▸ hfits, hvalue' ▸ hfits'⟩
      · rw [eq_of_splitAtDots hsplit, ha, hb]
      · rw [← hvalue, ← hvalue']
  · rintro ⟨a, b, rfl, rfl, hfits, hfits'⟩
    refine (read_of_split (splitAtDots_append a.dot_not_mem b.text)).mpr ⟨?_, ?_⟩
    · exact a.read_iff.mpr ⟨rfl, hfits⟩
    · exact b.read_iff.mpr ⟨rfl, hfits'⟩

def Side.ofNat (n : Nat) : Side where
  lead := []
  sign := []
  digits := Text.decimal n
  trail := []
  blank_lead := by simp [Text.Blank]
  sign_eq := .inl rfl
  digits_ne_nil := Text.decimal_ne_nil n
  digits_range c hc := (Text.isDigit_iff_range c).mp (Text.isDigit_of_mem_decimal hc)
  blank_trail := by simp [Text.Blank]

private theorem writes_range {m n : Nat} (hm : m < UInt64.size) (hn : n < UInt64.size) :
    Writes (Text.range m n) ⟨m, n⟩ := by
  have hvalue (k : Nat) : (Side.ofNat k).value = k := Text.ofDigitChars_decimal k
  refine ⟨.ofNat m, .ofNat n, ?_, ?_, ?_, ?_⟩
  · simp [Text.range, Side.text, Side.ofNat]
  · rw [hvalue, hvalue]
  · rw [hvalue]
    exact hm
  · rw [hvalue]
    exact hn

/-- The reader accepts exactly the texts of the grammar, reads their two numbers, and refuses every
other text; what two numbers write with dots between them is read back. -/
theorem read_accepts_grammar (s : List Char) :
    (∀ e, read s = .ok e ↔ Writes s e) ∧
    ((∃ x, read s = .error x) ↔ ∀ e, ¬Writes s e) ∧
    ∀ m n, m < UInt64.size → n < UInt64.size → read (Text.range m n) = .ok ⟨m, n⟩ := by
  refine ⟨fun e => read_eq_ok_iff, ?_, fun m n hm hn => read_eq_ok_iff.mpr (writes_range hm hn)⟩
  simp only [← read_eq_ok_iff]
  cases read s with
  | error x => simp
  | ok e => simp

theorem read_accepts_grammar_reversed :
    read "\u3000+0020\t..\u0085 7".toList = .ok ⟨20, 7⟩ ∧
      Writes "\u3000+0020\t..\u0085 7".toList ⟨20, 7⟩ ∧
      (∀ e, ¬Writes "1..18446744073709551616".toList e) ∧
      read (Text.range 18446744073709551615 0) = .ok ⟨18446744073709551615, 0⟩ := by
  obtain ⟨hok, -, hback⟩ := read_accepts_grammar "\u3000+0020\t..\u0085 7".toList
  have hread : read "\u3000+0020\t..\u0085 7".toList = .ok ⟨20, 7⟩ := by rfl
  refine ⟨hread, (hok _).mp hread, ?_, hback _ _ (by decide) (by decide)⟩
  exact (read_accepts_grammar "1..18446744073709551616".toList).2.1.mp ⟨_, rfl⟩

end MetaBlocks.Command.Viewport
