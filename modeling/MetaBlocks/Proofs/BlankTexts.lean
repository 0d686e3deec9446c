import MetaBlocks.Load
import MetaBlocks.Proofs.Records

/-!
Texts of blanks. Not every blank is one to YAML, so such a text may hold plain scalars; but it has
no indicator, so it holds nothing else, and the root of its document is a scalar.
-/

set_option autoImplicit false
set_option relaxedAutoImplicit false

namespace MetaBlocks.Yaml

def Token.IsBare (t : Token) : Prop :=
  t.kind = .streamEnd ∨ ∃ style text, t.kind = .scalar style text

/-- Every character is white space, once breaks are made alike. -/
def Glyph.AllBlank (gs : List Glyph) : Prop := ∀ g ∈ gs, Text.isBlank g.char = true

private theorem Glyph.allBlank_ofChars {m : Mark} {cs : List Char}
    (h : ∀ c ∈ cs, Text.isBlank c = true) : AllBlank (ofChars m cs).1 := by
  have hfeed : Text.isBlank '\n' = true := by decide
  fun_induction ofChars m cs with
  | case1 => exact fun _ hg => (List.not_mem_nil hg).elim
  | case2 m cs gs stop hrest ih =>
    rw [hrest] at ih
    have hcs := (List.forall_mem_cons.mp (List.forall_mem_cons.mp h).2).2
    exact List.forall_mem_cons.mpr ⟨hfeed, ih hcs⟩
  | case3 m c cs _ hc gs stop hrest ih =>
    rw [hrest] at ih
    exact List.forall_mem_cons.mpr ⟨hfeed, ih (List.forall_mem_cons.mp h).2⟩
  | case4 m c cs _ hc gs stop hrest ih =>
    rw [hrest] at ih
    obtain ⟨hblank, hcs⟩ := List.forall_mem_cons.mp h
    exact List.forall_mem_cons.mpr ⟨hblank, ih hcs⟩

private theorem Scalar.rest_subset_of_plain_ok {inFlow : Bool} {indent : Nat} {fresh : Bool}
    {pending : Pending} {acc text : List Char} {broken : Bool} {gs rest : List Glyph}
    (h : plain inFlow indent fresh pending acc gs = .ok (text, broken, rest)) : rest ⊆ gs := by
  fun_induction plain inFlow indent fresh pending acc gs
  case case1 | case5 | case7 =>
    obtain rfl := (Prod.mk.inj (Prod.mk.inj (Except.ok.inj h)).2).2
    exact List.Subset.refl _
  case case2 | case6 => cases h
  case case3 ih | case4 ih | case8 ih => exact List.subset_cons_of_subset _ (ih h)

namespace Scan

variable {s t : Scan}

private theorem skipBlanks_subset (inFlow inComment keyAllowed : Bool) (gs : List Glyph) :
    (skipBlanks inFlow inComment keyAllowed gs).1 ⊆ gs := by
  fun_induction skipBlanks inFlow inComment keyAllowed gs
  case case1 | case6 => exact List.Subset.refl _
  case case2 ih | case3 ih | case4 ih | case5 ih => exact List.subset_cons_of_subset _ ih

private theorem keys_of_dropKey_ok (h : s.dropKey = .ok t) :
    ∃ keys, t = { s with keys := keys } := by
  unfold dropKey at h
  split at h
  · split at h
    · cases h
    · cases h
      exact ⟨_, rfl⟩
  · cases h
    exact ⟨_, rfl⟩

private theorem keys_of_noteKey_ok (h : s.noteKey = .ok t) :
    ∃ keys, t = { s with keys := keys } := by
  unfold noteKey at h
  split at h
  · obtain ⟨u, hdrop, h⟩ := bind_eq_ok_iff.mp h
    obtain ⟨keys, rfl⟩ := keys_of_dropKey_ok hdrop
    cases h
    exact ⟨_, rfl⟩
  · cases h
    exact ⟨_, rfl⟩

private theorem keys_of_dropStaleKeys_ok (h : s.dropStaleKeys = .ok t) :
    ∃ keys, t = { s with keys := keys } := by
  obtain ⟨keys, -, h⟩ := bind_eq_ok_iff.mp h
  cases h
  exact ⟨keys, rfl⟩

/-- A scan of blanks that has met no block and nothing but scalars. -/
structure Idle (s : Scan) : Prop where
  tokens : ∀ t ∈ s.tokens, t.IsBare
  indents : s.indents = []
  rest : Glyph.AllBlank s.rest

namespace Idle

private theorem withKeys (h : s.Idle) (keys : List (Option PossibleKey)) :
    { s with keys := keys }.Idle :=
  ⟨h.tokens, h.indents, h.rest⟩

private theorem closeBlocks (h : s.Idle) (column : Option Nat) : (s.closeBlocks column).Idle := by
  have hclosing (m : Mark) : closing m column s.indents s.tokens = (s.tokens, []) := by
    rw [h.indents]
    rfl
  unfold Scan.closeBlocks
  split
  · exact h
  · rw [hclosing]
    exact ⟨h.tokens, rfl, h.rest⟩

private theorem push (h : s.Idle) {tok : Token} (htok : tok.IsBare) : (s.push tok).Idle :=
  ⟨List.forall_mem_cons.mpr ⟨htok, h.tokens⟩, h.indents, h.rest⟩

private theorem advance (h : s.Idle) (hadvance : s.advance = .ok t) : t.Idle := by
  obtain ⟨u, hstale, hadvance⟩ := bind_eq_ok_iff.mp hadvance
  obtain ⟨keys, rfl⟩ := keys_of_dropStaleKeys_ok hstale
  cases hadvance
  have hrest : Glyph.AllBlank (skipBlanks s.inFlow false s.keyAllowed s.rest).1 :=
    fun g hg => h.rest g (skipBlanks_subset _ _ _ _ hg)
  refine closeBlocks ?_ _
  exact ⟨h.tokens, h.indents, hrest⟩

private theorem plainScalar (h : s.Idle) (hscalar : s.plainScalar = .ok t) : t.Idle := by
  obtain ⟨u, hnote, hscalar⟩ := bind_eq_ok_iff.mp hscalar
  obtain ⟨keys, rfl⟩ := keys_of_noteKey_ok hnote
  split at hscalar
  · next text broken rest hplain =>
    cases hscalar
    have hrest : Glyph.AllBlank rest :=
      fun g hg => h.rest g (Scalar.rest_subset_of_plain_ok hplain hg)
    refine push ?_ (.inr ⟨.plain, text, rfl⟩)
    exact ⟨h.tokens, h.indents, hrest⟩
  · cases hscalar

end Idle

private theorem token_of_blank {g : Glyph} (hg : Text.isBlank g.char = true) (gs : List Glyph) :
    s.token g gs = s.plainScalar ∨ ∃ e, s.token g gs = .error e := by
  -- No indicator is white space, so only the last branch is left.
  have hne {c : Char} (hc : Text.isBlank c = false) : (g.char == c) = false := by
    refine beq_eq_false_iff_ne.mpr fun heq => ?_
    rw [heq, hc] at hg
    cases hg
  have hmarker {c : Char} (hc : Text.isBlank c = false) : Glyph.isMarker c (g :: gs) = false := by
    unfold Glyph.isMarker
    split
    · next heq =>
      obtain ⟨rfl, -⟩ := List.cons.inj heq
      simp [hne hc]
    · rfl
  unfold token
  simp only [hne (c := '%') (by decide), hmarker (c := '-') (by decide),
    hmarker (c := '.') (by decide), hne (c := '[') (by decide), hne (c := ']') (by decide),
    hne (c := '\x7b') (by decide), hne (c := '\x7d') (by decide), hne (c := ',') (by decide),
    hne (c := '-') (by decide), hne (c := '?') (by decide), hne (c := ':') (by decide),
    hne (c := '*') (by decide), hne (c := '&') (by decide), hne (c := '!') (by decide),
    hne (c := '|') (by decide), hne (c := '>') (by decide), hne (c := '\'') (by decide),
    hne (c := '"') (by decide), Bool.and_false, Bool.false_and, Bool.false_eq_true, if_false]
  split
  · exact .inl rfl
  · exact .inr ⟨_, rfl⟩

namespace Idle

private theorem token (h : s.Idle) {g : Glyph} {gs : List Glyph} (hrest : s.rest = g :: gs)
    (htoken : s.token g gs = .ok t) : t.Idle := by
  have hg : Text.isBlank g.char = true := h.rest g (by rw [hrest]; exact List.mem_cons_self)
  rcases token_of_blank hg gs with hplain | ⟨e, herror⟩
  · rw [hplain] at htoken
    exact h.plainScalar htoken
  · rw [herror] at htoken
    cases htoken

private theorem run (h : s.Idle) {fuel : Nat} (hrun : run fuel s = .ok t) :
    ∀ tok ∈ t.tokens, tok.IsBare := by
  induction fuel generalizing s with
  | zero =>
    cases hrun
    exact h.tokens
  | succ fuel ih =>
    obtain ⟨u, hadvance, hrun⟩ := bind_eq_ok_iff.mp hrun
    have hu := h.advance hadvance
    split at hrun
    · next g gs hrest =>
      obtain ⟨v, htoken, hrun⟩ := bind_eq_ok_iff.mp hrun
      exact ih (hu.token hrest htoken) hrun
    · obtain ⟨v, hdrop, hrun⟩ := bind_eq_ok_iff.mp hrun
      obtain ⟨keys, rfl⟩ := keys_of_dropKey_ok hdrop
      cases hrun
      refine (push (withKeys (closeBlocks ?_ none) keys) (.inl rfl)).tokens
      exact ⟨hu.tokens, hu.indents, hu.rest⟩

end Idle

end Scan

namespace Read

variable {α : Type}

private theorem run_peek_bind {s : ReadState} {t : Token} {ts : List Token} (h : s.tokens = t :: ts)
    (f : Token → Read α) : (peek >>= f).run s = (f t).run s := by
  have hpeek : peek.run s = .ok (t, s) := by
    simp only [peek, StateT.run_bind, StateT.run_get, pure_bind, h]
    rfl
  rw [StateT.run_bind, hpeek]
  rfl

private theorem exists_of_run_bind_ok {β : Type} {x : Read α} {f : α → Read β} {s : ReadState}
    {r : β × ReadState} (h : (x >>= f).run s = .ok r) :
    ∃ a s₁, x.run s = .ok (a, s₁) ∧ (f a).run s₁ = .ok r := by
  rw [StateT.run_bind, bind_eq_ok_iff] at h
  obtain ⟨⟨a, s₁⟩, hx, hf⟩ := h
  exact ⟨a, s₁, hx, hf⟩

private theorem eq_of_node_ok {s : ReadState} {t : Token} {ts : List Token} {style : ScalarStyle}
    {text : List Char} (h : s.tokens = t :: ts) (hk : t.kind = .scalar style text) (fuel : Nat)
    (inBlock indentless : Bool) {r : Node × ReadState}
    (hn : (node (fuel + 1) inBlock indentless).run s = .ok r) :
    r.1 = .scalar t.start none style text := by
  have hproperties : properties.run s = .ok ((none, none), s) := by
    rw [properties, run_peek_bind h]
    simp only [hk]
    rfl
  rw [node, run_peek_bind h] at hn
  simp only [hk] at hn
  obtain ⟨_, s₁, hfirst, hn⟩ := exists_of_run_bind_ok hn
  rw [hproperties] at hfirst
  cases hfirst
  simp only at hn
  rw [run_peek_bind h] at hn
  simp only [hk] at hn
  obtain ⟨_, s₂, -, hn⟩ := exists_of_run_bind_ok hn
  cases hn
  rfl

private theorem root_of_document_ok {s : ReadState} {t : Token} {ts : List Token}
    {style : ScalarStyle} {text : List Char} (h : s.tokens = t :: ts)
    (hk : t.kind = .scalar style text) (fuel : Nat) {r : Document × ReadState}
    (hd : (document (fuel + 1) true).run s = .ok r) :
    r.1.root = .scalar t.start none style text := by
  rw [document] at hd
  obtain ⟨_, s₁, hset, hd⟩ := exists_of_run_bind_ok hd
  have h₁ : s₁.tokens = t :: ts := by
    cases hset
    exact h
  rw [run_peek_bind h₁] at hd
  simp only [hk] at hd
  obtain ⟨_, s₂, hset', hd⟩ := exists_of_run_bind_ok hd
  have h₂ : s₂.tokens = t :: ts := by
    cases hset'
    exact h₁
  obtain ⟨root, s₃, hroot, hd⟩ := exists_of_run_bind_ok hd
  obtain rfl : root = _ := eq_of_node_ok h₂ hk fuel true false hroot
  obtain ⟨u, s₄, -, hd⟩ := exists_of_run_bind_ok hd
  split at hd
  · obtain ⟨_, s₅, -, hd⟩ := exists_of_run_bind_ok hd
    cases hd
    rfl
  · cases hd
    rfl

private theorem root_of_documents_ok {s : ReadState} {t : Token} {ts : List Token}
    (h : s.tokens = t :: ts) (hk : t.kind = .streamEnd ∨ ∃ style text, t.kind = .scalar style text)
    (size fuel : Nat) {d : Document} {ds : List Document} {s' : ReadState}
    (hd : (documents size (fuel + 1) true).run s = .ok (d :: ds, s')) :
    ∃ m style text, d.root = .scalar m none style text := by
  rw [documents] at hd
  simp only [Bool.not_true, Bool.false_eq_true, if_false] at hd
  rw [run_peek_bind h] at hd
  rcases hk with hk | ⟨style, text, hk⟩
  · rw [if_pos hk] at hd
    cases hd
  · rw [if_neg (by rw [hk]; exact TokenKind.noConfusion)] at hd
    obtain ⟨d', s₁, hfirst, hd⟩ := exists_of_run_bind_ok hd
    obtain ⟨ds', s₂, -, hd⟩ := exists_of_run_bind_ok hd
    cases hd
    exact ⟨t.start, style, text, root_of_document_ok h hk _ hfirst⟩

end Read

private theorem Token.isBare_of_ofText_ok {text : List Char}
    (hblank : ∀ c ∈ text, Text.isBlank c = true) {ts : List Token} (h : ofText text = .ok ts) :
    ∀ t ∈ ts, t.IsBare := by
  unfold ofText at h
  split at h
  next gs finish hglyphs =>
  have hgs : Glyph.AllBlank gs := by
    have hall := Glyph.allBlank_ofChars (m := ⟨0, 0, 0⟩) hblank
    rw [hglyphs] at hall
    exact hall
  have hidle : (Scan.start gs finish).Idle := ⟨fun _ ht => (List.not_mem_nil ht).elim, rfl, hgs⟩
  split at h
  · obtain ⟨s, hrun, h⟩ := bind_eq_ok_iff.mp h
    cases h
    intro t ht
    exact hidle.run hrun t (List.mem_reverse.mp ht)
  · cases h

theorem Document.root_of_blank {text : List Char} (hblank : ∀ c ∈ text, Text.isBlank c = true)
    {d : Document} {ds : List Document} (h : ofText text = .ok (d :: ds)) :
    ∃ m style s, d.root = .scalar m none style s := by
  obtain ⟨ts, htokens, h⟩ := bind_eq_ok_iff.mp h
  have hbare := Token.isBare_of_ofText_ok hblank htokens
  obtain ⟨⟨ds', s'⟩, hread, h⟩ := bind_eq_ok_iff.mp h
  cases h
  cases ts with
  | nil => cases hread
  | cons t ts => exact Read.root_of_documents_ok rfl (hbare t List.mem_cons_self) _ _ hread

end MetaBlocks.Yaml
