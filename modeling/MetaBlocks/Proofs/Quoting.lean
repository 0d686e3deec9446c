import MetaBlocks.Proofs.Numerals
import MetaBlocks.Text.Quoted

/-!
Quoted text can be read back. Every character is written as itself, as a backslash with one letter,
or by its code point between braces; these forms can be told apart, none starts with a quote, and
none holds a line feed. So a quoted text tells where it ends, whatever follows it.
-/

set_option autoImplicit false
set_option relaxedAutoImplicit false

namespace MetaBlocks.Text

private theorem exists_digit_of_mem_hex {n : Nat} {c : Char} (h : c ∈ hex n) :
    ∃ k < 16, c = Nat.digitChar k := by
  induction n using Nat.strongRecOn with
  | ind n ih =>
    rw [hex, Nat.toDigits_eq_if (by decide)] at h
    split at h
    next hlt => exact ⟨n, hlt, List.mem_singleton.mp h⟩
    next hge =>
      rw [List.mem_append, List.mem_singleton] at h
      rcases h with hfront | hlast
      · exact ih (n / 16) (by omega) hfront
      · exact ⟨n % 16, by omega, hlast⟩

private theorem digitChar_injective {j k : Nat} (hj : j < 16) (hk : k < 16)
    (h : Nat.digitChar j = Nat.digitChar k) : j = k := by
  have hall : ∀ j < 16, ∀ k < 16, Nat.digitChar j = Nat.digitChar k → j = k := by decide
  exact hall j hj k hk h

private theorem hex_injective {m n : Nat} (h : hex m = hex n) : m = n := by
  induction m using Nat.strongRecOn generalizing n with
  | ind m ih =>
    rw [hex, hex, Nat.toDigits_eq_if (by decide),
      Nat.toDigits_eq_if (b := 16) (n := n) (by decide)] at h
    have hfront (k : Nat) : 0 < (Nat.toDigits 16 k).length :=
      List.length_pos_iff.mpr Nat.toDigits_ne_nil
    split at h
    next hm =>
      split at h
      next hn => exact digitChar_injective hm hn (List.singleton_inj.mp h)
      next hn =>
        have hlength := congrArg List.length h
        have hpos := hfront (n / 16)
        simp only [List.length_append, List.length_singleton] at hlength
        omega
    next hm =>
      split at h
      next hn =>
        have hlength := congrArg List.length h
        have hpos := hfront (m / 16)
        simp only [List.length_append, List.length_singleton] at hlength
        omega
      next hn =>
        obtain ⟨hquotient, hremainder⟩ := List.append_inj' h rfl
        have hhigh := ih (m / 16) (by omega) hquotient
        have hlow := digitChar_injective (by omega) (by omega) (List.singleton_inj.mp hremainder)
        omega

private theorem hex_append_inj {m n : Nat} {s t : List Char}
    (h : hex m ++ '\x7d' :: s = hex n ++ '\x7d' :: t) : m = n ∧ s = t := by
  have hdigit (k : Nat) : ∀ c ∈ hex k, (c != '\x7d') = true := by
    have hall : ∀ j < 16, (Nat.digitChar j != '\x7d') = true := by decide
    intro c hc
    obtain ⟨j, hj, rfl⟩ := exists_digit_of_mem_hex hc
    exact hall j hj
  have hbrace (u : List Char) : ∀ c ∈ ('\x7d' :: u).head?, (c != '\x7d') = false := by simp
  obtain ⟨hnumber, hrest⟩ := append_inj_of_run (hdigit m) (hdigit n) (hbrace s) (hbrace t) h
  exact ⟨hex_injective hnumber, (List.cons.inj hrest).2⟩

def shortEscapes : List (Char × Char) :=
  [(Char.ofNat 0, '0'), ('\t', 't'), ('\r', 'r'), ('\n', 'n'), ('"', '"'), ('\\', '\\')]

inductive EscapedAs (c : Char) : List Char → Prop
  | short (e : Char) (listed : (c, e) ∈ shortEscapes) : EscapedAs c ['\\', e]
  | code : EscapedAs c ('\\' :: 'u' :: '\x7b' :: (hex c.toNat ++ ['\x7d']))
  | plain (backslash : c ≠ '\\') (quote : c ≠ '"') (feed : c ≠ '\n') : EscapedAs c [c]

private theorem escapedAs_escape (c : Char) : EscapedAs c (escape c) := by
  unfold escape
  split
  next h => exact .short '0' (by simp [shortEscapes, h])
  split
  next h => exact .short 't' (by simp [shortEscapes, h])
  split
  next h => exact .short 'r' (by simp [shortEscapes, h])
  split
  next h => exact .short 'n' (by simp [shortEscapes, h])
  split
  next h => exact .short '"' (by simp [shortEscapes, h])
  split
  next h => exact .short '\\' (by simp [shortEscapes, h])
  next hfeed hquote hbackslash =>
    split
    next => exact .code
    next => exact .plain hbackslash hquote hfeed

private theorem short_injective {c c' e : Char} (h : (c, e) ∈ shortEscapes)
    (h' : (c', e) ∈ shortEscapes) : c = c' := by
  have hall : ∀ p ∈ shortEscapes, ∀ q ∈ shortEscapes, p.2 = q.2 → p.1 = q.1 := by decide
  exact hall _ h _ h' rfl

private theorem short_ne_u {c e : Char} (h : (c, e) ∈ shortEscapes) : e ≠ 'u' := by
  have hall : ∀ p ∈ shortEscapes, p.2 ≠ 'u' := by decide
  exact hall _ h

private theorem EscapedAs.inj {c c' : Char} {w w' s t : List Char} (h : EscapedAs c w)
    (h' : EscapedAs c' w') (heq : w ++ s = w' ++ t) : c = c' ∧ s = t := by
  cases h with
  | short e listed =>
    cases h' with
    | short e' listed' =>
      obtain ⟨rfl, rfl⟩ : e = e' ∧ s = t := by simpa using heq
      exact ⟨short_injective listed listed', rfl⟩
    | code =>
      have hletter : e = 'u' := by simpa using (List.cons.inj (List.cons.inj heq).2).1
      exact absurd hletter (short_ne_u listed)
    | plain backslash => exact absurd (List.cons.inj heq).1.symm backslash
  | code =>
    cases h' with
    | short e' listed' =>
      have hletter : 'u' = e' := by simpa using (List.cons.inj (List.cons.inj heq).2).1
      exact absurd hletter.symm (short_ne_u listed')
    | code =>
      simp only [List.cons_append, List.append_assoc, List.nil_append, List.cons.injEq,
        true_and] at heq
      obtain ⟨hcode, hrest⟩ := hex_append_inj heq
      exact ⟨Char.toNat_inj.mp hcode, hrest⟩
    | plain backslash => exact absurd (List.cons.inj heq).1.symm backslash
  | plain backslash =>
    cases h' with
    | short => exact absurd (List.cons.inj heq).1 backslash
    | code => exact absurd (List.cons.inj heq).1 backslash
    | plain => exact List.cons.inj heq

private theorem EscapedAs.head_ne_quote {c : Char} {w s t : List Char} (h : EscapedAs c w) :
    w ++ s ≠ '"' :: t := by
  intro heq
  cases h with
  | short e => exact absurd (List.cons.inj heq).1 (by decide)
  | code => exact absurd (List.cons.inj heq).1 (by decide)
  | plain _ quote => exact quote (List.cons.inj heq).1

private theorem EscapedAs.feed_not_mem {c : Char} {w : List Char} (h : EscapedAs c w) :
    '\n' ∉ w := by
  cases h with
  | short e listed =>
    have hall : ∀ p ∈ shortEscapes, '\n' ≠ p.2 := by decide
    simp [hall _ listed]
  | code =>
    have hall : ∀ j < 16, '\n' ≠ Nat.digitChar j := by decide
    intro hmem
    have hhex : '\n' ∈ hex c.toNat := by simpa using hmem
    obtain ⟨j, hj, hfeed⟩ := exists_digit_of_mem_hex hhex
    exact hall j hj hfeed
  | plain _ _ feed => simpa using feed.symm

private theorem escapes_append_inj {s s' t t' : List Char}
    (h : s.flatMap escape ++ '"' :: t = s'.flatMap escape ++ '"' :: t') : s = s' ∧ t = t' := by
  induction s generalizing s' with
  | nil =>
    cases s' with
    | nil => exact ⟨rfl, (List.cons.inj h).2⟩
    | cons c s' =>
      rw [List.flatMap_cons, List.append_assoc] at h
      exact absurd h.symm (escapedAs_escape c).head_ne_quote
  | cons c s ih =>
    rw [List.flatMap_cons, List.append_assoc] at h
    cases s' with
    | nil => exact absurd h (escapedAs_escape c).head_ne_quote
    | cons c' s' =>
      rw [List.flatMap_cons, List.append_assoc] at h
      obtain ⟨rfl, hrest⟩ := (escapedAs_escape c).inj (escapedAs_escape c') h
      obtain ⟨rfl, rfl⟩ := ih hrest
      exact ⟨rfl, rfl⟩

theorem quote_append_inj {s s' t t' : List Char} (h : quote s ++ t = quote s' ++ t') :
    s = s' ∧ t = t' := by
  simp only [quote, List.cons_append, List.append_assoc, List.nil_append, List.cons.injEq,
    true_and] at h
  exact escapes_append_inj h

theorem feed_not_mem_quote (s : List Char) : '\n' ∉ quote s := by
  simp only [quote, List.mem_append, List.mem_cons, List.mem_flatMap, not_or]
  refine ⟨⟨by decide, ?_⟩, by decide, List.not_mem_nil⟩
  rintro ⟨c, -, hmem⟩
  exact (escapedAs_escape c).feed_not_mem hmem

end MetaBlocks.Text
