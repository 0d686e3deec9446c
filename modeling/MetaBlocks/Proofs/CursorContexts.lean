import MetaBlocks.Proofs.Cuts
import MetaBlocks.Proofs.KeywordLines

/-!
Completion contexts read off the kinds of lines. A completion request looks only at the text before
its cursor; here its answer is told from the kind of the whole line that holds the cursor. The two
agree once the cursor has been moved back over a carriage return directly before it. That is the
return of a line break if a line feed follows, and otherwise a character of the line: there the
context belongs to the offset before the cursor.
-/

set_option autoImplicit false
set_option relaxedAutoImplicit false

namespace MetaBlocks

namespace Declaration

def replacedAt (k : Declaration) (o : Nat) : Extent :=
  if k.name = [] then ⟨o, o⟩ else ⟨min o k.nameExtent.start, max k.nameExtent.stop o⟩

/-- The context that a keyword line gives to an offset. There is none up to the keyword's end. -/
def contextAt? (k : Declaration) (d : Document) (o : Nat) : Option CompletionContext :=
  if k.keywordExtent.stop < o then
    some ⟨k.keyword, k.line, (d.text.take o).drop (k.replacedAt o).start, k.replacedAt o⟩
  else none

theorem replacedAt_of_name_eq_nil {k : Declaration} (h : k.name = []) (o : Nat) :
    k.replacedAt o = ⟨o, o⟩ := if_pos h

theorem replacedAt_of_name_ne_nil {k : Declaration} (h : k.name ≠ []) (o : Nat) :
    k.replacedAt o = ⟨min o k.nameExtent.start, max k.nameExtent.stop o⟩ := if_neg h

private theorem replacedAt_start_le (k : Declaration) (o : Nat) : (k.replacedAt o).start ≤ o := by
  unfold replacedAt
  split
  · exact Nat.le_refl o
  · exact Nat.min_le_left o _

private theorem le_replacedAt_stop (k : Declaration) (o : Nat) : o ≤ (k.replacedAt o).stop := by
  unfold replacedAt
  split
  · exact Nat.le_refl o
  · exact Nat.le_max_right _ o

private theorem isSome_contextAt?_mono {k : Declaration} {d : Document} {o o' : Nat}
    (h : (k.contextAt? d o).isSome) (hle : o ≤ o') : (k.contextAt? d o').isSome := by
  simp only [contextAt?, Option.isSome_ite] at h ⊢
  omega

private theorem offset_of_contextAt? {k : Declaration} {d : Document} {o : Nat}
    {x : CompletionContext} (h : k.contextAt? d o = some x) (ho : o ≤ d.length) :
    x.replaced.start + x.typed.length = o := by
  have hstart := k.replacedAt_start_le o
  rw [contextAt?, Option.ite_none_right_eq_some, Option.some.injEq] at h
  obtain ⟨-, rfl⟩ := h
  rw [Document.length] at ho
  simp only [List.length_drop, List.length_take]
  omega

end Declaration

theorem LineKind.declaration?_eq_some_iff {x : LineKind} {k : Declaration} :
    x.declaration? = some k ↔ x = .declaration k := by
  cases x <;> simp [declaration?]

namespace Document

/-- A cursor brought into the document, and out of a line break of two characters. -/
def settle (d : Document) (cursor : Nat) : Nat :=
  let o := d.clamp cursor
  if (d.text.take o).getLast? = some '\r' ∧ (d.text.drop o).head? = some '\n' then o - 1 else o

/-- A cursor brought into the document and back over a carriage return. -/
def backOverReturn (d : Document) (cursor : Nat) : Nat :=
  let o := d.clamp cursor
  if (d.text.take o).getLast? = some '\r' then o - 1 else o

/-- The cursor stands directly after a carriage return that is no part of a line break. -/
def AfterLoneReturn (d : Document) (cursor : Nat) : Prop :=
  (d.text.take (d.clamp cursor)).getLast? = some '\r' ∧
    (d.text.drop (d.clamp cursor)).head? ≠ some '\n'

instance (d : Document) (cursor : Nat) : Decidable (d.AfterLoneReturn cursor) :=
  inferInstanceAs (Decidable (_ ∧ _))

theorem clamp_le_length (d : Document) (cursor : Nat) : d.clamp cursor ≤ d.length :=
  Nat.min_le_right cursor _

variable {d : Document} {cursor : Nat}

private theorem settle_of_afterLoneReturn (h : d.AfterLoneReturn cursor) :
    d.settle cursor = d.clamp cursor := if_neg fun hbreak => h.2 hbreak.2

private theorem backOverReturn_of_afterLoneReturn (h : d.AfterLoneReturn cursor) :
    d.backOverReturn cursor = d.clamp cursor - 1 := if_pos h.1

private theorem backOverReturn_eq_settle (h : ¬d.AfterLoneReturn cursor) :
    d.backOverReturn cursor = d.settle cursor := by
  by_cases hreturn : (d.text.take (d.clamp cursor)).getLast? = some '\r'
  · have hfeed : (d.text.drop (d.clamp cursor)).head? = some '\n' := by
      by_contra hne
      exact h ⟨hreturn, hne⟩
    simp only [backOverReturn, settle, hreturn, hfeed, and_self, ↓reduceIte]
  · simp only [backOverReturn, settle, hreturn, false_and, ↓reduceIte]

private theorem clamp_pos_of_afterLoneReturn (h : d.AfterLoneReturn cursor) :
    0 < d.clamp cursor := by
  refine Nat.pos_of_ne_zero fun hzero => ?_
  have hreturn := h.1
  rw [hzero] at hreturn
  simp at hreturn

private theorem exists_line_of_afterLoneReturn (h : d.AfterLoneReturn cursor) :
    ∃ l, d.lineHolding? (d.clamp cursor) = some l ∧ d.lineHolding? (d.clamp cursor - 1) = some l := by
  obtain ⟨hreturn, hfeed⟩ := h
  rcases Text.stands (d.clamp_le_length cursor) with
    ⟨c, k, htext, hinside, hplace⟩ | ⟨c, htext, hpair, hplace⟩ | ⟨hends, hplace⟩
  · refine ⟨c.asLine, by rw [hplace, lineHolding?_of_cut htext hinside], ?_⟩
    have hk : k ≠ 0 := by
      intro hzero
      rw [hplace, hzero, htext, Text.Cut.text, Nat.add_zero, List.take_left] at hreturn
      exact c.endsRow.getLast?_ne_return hreturn
    rw [hplace, Nat.add_sub_assoc (by omega), lineHolding?_of_cut htext (by omega)]
  · refine absurd ?_ hfeed
    have hlen : d.clamp cursor = (c.before ++ (c.line ++ ['\r'])).length := by
      rw [hplace, List.length_append, List.length_append, List.length_singleton, Nat.add_assoc]
    have hsplit : d.text = c.before ++ (c.line ++ ['\r']) ++ '\n' :: c.after := by
      simp [htext, Text.Cut.text, hpair]
    rw [hlen, hsplit, List.drop_left, List.head?_cons]
  · rw [hplace, List.take_length] at hreturn
    exact absurd hreturn hends.getLast?_ne_return

theorem backOverReturn_eq {p q s : List Char} (h : d.text = p ++ (q ++ s)) (hp : Text.EndsRow p)
    (ho : d.clamp cursor = p.length + q.length) :
    d.backOverReturn cursor = p.length + (CompletionContext.dropReturn q).length := by
  have htake : d.text.take (p.length + q.length) = p ++ q := by
    rw [h, ← List.append_assoc, ← List.length_append, List.take_left]
  simp only [backOverReturn, ho, htake, List.getLast?_append]
  rcases CompletionContext.dropReturn_cases q with ⟨hsame, hlast⟩ | hreturn
  · have hrow : q.getLast?.or p.getLast? ≠ some '\r' := by
      intro hor
      rcases Option.or_eq_some_iff.mp hor with hq | ⟨-, hpr⟩
      · exact hlast hq
      · exact hp.getLast?_ne_return hpr
    rw [if_neg hrow, hsame]
  · generalize CompletionContext.dropReturn q = v at hreturn
    subst hreturn
    simp only [List.getLast?_concat, Option.some_or, ↓reduceIte, List.length_append,
      List.length_singleton]
    omega

end Document

namespace Text

private theorem length_trimEnd_append_colon (u rest : List Char) :
    (trimEnd (u ++ ':' :: rest)).length =
      if trim rest = [] then u.length + 1
      else u.length + 1 + (rest.takeWhile isBlank).length + (trim rest).length := by
  by_cases hvalue : trim rest = []
  · have hcolon : ∀ c ∈ (u ++ [':']).getLast?, isBlank c = false := by
      rw [List.getLast?_concat]
      rintro c ⟨⟩
      decide
    rw [if_pos hvalue, ← List.singleton_append, ← List.append_assoc,
      trimEnd_append _ (isBlankText_of_trim_eq_nil hvalue), trimEnd_eq_self hcolon,
      List.length_append, List.length_singleton]
  · obtain ⟨trail, hrest, hblank⟩ := exists_trail rest
    have hlast : ∀ c ∈ (u ++ ':' :: rest.takeWhile isBlank ++ trim rest).getLast?,
        isBlank c = false := by
      intro c hc
      rw [List.getLast?_append, List.getLast?_eq_some_getLast hvalue, Option.some_or,
        ← List.getLast?_eq_some_getLast hvalue] at hc
      exact getLast?_trimEnd _ c hc
    have hsplit : u ++ ':' :: rest = u ++ ':' :: rest.takeWhile isBlank ++ trim rest ++ trail := by
      simp only [List.append_assoc, List.cons_append]
      rw [← hrest]
    rw [if_neg hvalue, hsplit, trimEnd_append _ hblank, trimEnd_eq_self hlast]
    simp only [List.length_append, List.length_cons]
    omega

end Text

namespace CompletionContext

variable {d : Document}

/-- The context that the kind of the line holding an offset gives to it. -/
def classified? (d : Document) (o : Nat) : Option CompletionContext := do
  let l ← d.lineHolding? o
  let k ← (LineKind.ofLine l).declaration?
  k.contextAt? d o

private theorem offset_of_classified? {o : Nat} {x : CompletionContext}
    (h : classified? d o = some x) (ho : o ≤ d.length) : x.replaced.start + x.typed.length = o := by
  simp only [classified?, Option.bind_eq_bind, Option.bind_eq_some_iff] at h
  obtain ⟨l, -, k, -, hx⟩ := h
  exact Declaration.offset_of_contextAt? hx ho

/-- What is replaced at an offset after the colon, in the terms in which the text before the cursor
is read: `rest` stands before the cursor and `after` behind it. -/
private theorem replacedAt_declared {l : Line} {k : Keyword} {indent rest after : List Char}
    (hline : l.text = indent ++ (k.word ++ ':' :: (rest ++ after))) {o : Nat}
    (ho : o = l.start + indent.length + k.word.length + 1 + rest.length) :
    (LineKind.declared l k indent (rest ++ after)).replacedAt o =
      ⟨o - (Text.trimStart rest).length, max (l.start + (Text.trimEnd l.text).length) o⟩ := by
  have hend := Text.length_trimEnd_append_colon (indent ++ k.word) (rest ++ after)
  rw [List.append_assoc, ← hline, List.length_append] at hend
  by_cases hname : Text.trim (rest ++ after) = []
  · have hblank := Text.isBlankText_of_trim_eq_nil hname
    rw [Text.isBlankText, List.all_append, Bool.and_eq_true] at hblank
    rw [if_pos hname] at hend
    rw [Declaration.replacedAt_of_name_eq_nil hname, hend, Text.trimStart_of_isBlankText hblank.1,
      List.length_nil, Nat.sub_zero, Nat.max_eq_right (by omega)]
  · -- What was typed lacks the blanks before the name, as far as the cursor has come.
    have htyped := Text.trimStart_take (rest ++ after) rest.length
    rw [List.take_left] at htyped
    rw [if_neg hname] at hend
    rw [Declaration.replacedAt_of_name_ne_nil hname, hend, htyped, List.length_drop,
      Extent.mk.injEq]
    simp only [LineKind.declared]
    constructor <;> omega

private theorem contextAt?_declared {l : Line} {k : Keyword} {indent before rest after : List Char}
    (hline : l.text = indent ++ (k.word ++ ':' :: (rest ++ after)))
    (hstart : before.length = l.start) {o : Nat}
    (htake : d.text.take o = before ++ (indent ++ (k.word ++ ':' :: rest)))
    (ho : o = l.start + indent.length + k.word.length + 1 + rest.length) :
    (LineKind.declared l k indent (rest ++ after)).contextAt? d o =
      some ⟨k, l.number, Text.trimStart rest, ⟨o - (Text.trimStart rest).length,
        max (l.start + (Text.trimEnd l.text).length) o⟩⟩ := by
  have hafter : (LineKind.declared l k indent (rest ++ after)).keywordExtent.stop < o := by
    simp only [LineKind.declared]
    omega
  have hslice : (d.text.take o).drop (o - (Text.trimStart rest).length) = Text.trimStart rest := by
    have hrest := Text.takeWhile_append_trimStart rest
    have hfront : d.text.take o =
        before ++ (indent ++ (k.word ++ ':' :: rest.takeWhile Text.isBlank)) ++
          Text.trimStart rest := by
      simp only [htake, List.append_assoc, List.cons_append, hrest]
    have hlen := congrArg List.length hrest
    rw [List.length_append] at hlen
    rw [hfront]
    refine List.drop_left' ?_
    simp only [List.length_append, List.length_cons]
    omega
  rw [Declaration.contextAt?, if_pos hafter, replacedAt_declared hline ho, hslice]
  rfl

private theorem isSome_keywordPrefix?_take {k : Keyword} {indent : List Char}
    (hindent : Text.isBlankText indent = true) (rest : List Char) {n : Nat}
    (hn : indent.length + k.word.length < n) :
    (keywordPrefix? ((indent ++ (k.word ++ ':' :: rest)).take n)).isSome := by
  obtain ⟨j, rfl⟩ : ∃ j, n = indent.length + (k.word.length + (j + 1)) :=
    ⟨n - indent.length - k.word.length - 1, by omega⟩
  rw [List.take_length_add_append, List.take_length_add_append, List.take_succ_cons,
    keywordPrefix?_eq_some_iff.mpr ⟨indent, rest.take j, hindent, rfl, rfl⟩]
  rfl

/-- On one line, the text before a cursor and the kind of the line give the same context. -/
theorem keywordPrefix?_eq_contextAt? {c : Text.Cut} (h : d.text = c.text) {n : Nat}
    (hn : n ≤ c.line.length) :
    (keywordPrefix? (c.line.take n)).map (fun x => CompletionContext.mk x.1 c.asLine.number x.2
      ⟨c.before.length + n - x.2.length,
        max (c.before.length + (Text.trimEnd c.line).length) (c.before.length + n)⟩) =
      (LineKind.ofLine c.asLine).declaration?.bind (·.contextAt? d (c.before.length + n)) := by
  have htake : d.text.take (c.before.length + n) = c.before ++ c.line.take n := by
    rw [h, Text.Cut.text, List.take_length_add_append, List.append_assoc,
      List.take_append_of_le_length hn]
  cases hfound : keywordPrefix? (c.line.take n) with
  | some x =>
    obtain ⟨indent, rest, hindent, hbefore, htyped⟩ := keywordPrefix?_eq_some_iff.mp hfound
    have hline : c.line = indent ++ (x.1.word ++ ':' :: (rest ++ c.line.drop n)) := by
      have hsplit := List.take_append_drop n c.line
      rw [hbefore] at hsplit
      simpa using hsplit.symm
    have hlen := congrArg List.length hbefore
    simp only [List.length_take, List.length_append, List.length_cons] at hlen
    rw [LineKind.ofLine_eq_declared hindent hline, Option.map_some, LineKind.declaration?,
      Option.bind_some, htyped]
    rw [hbefore] at htake
    exact (contextAt?_declared hline rfl htake (by simp only [Text.Cut.asLine]; omega)).symm
  | none =>
    rw [Option.map_none, eq_comm, Option.bind_eq_none_iff]
    intro k hk
    obtain ⟨kw, indent, rest, hindent, hline, rfl⟩ :=
      LineKind.ofLine_eq_declaration_iff.mp (LineKind.declaration?_eq_some_iff.mp hk)
    refine if_neg fun hafter => ?_
    have hline : c.line = indent ++ (kw.word ++ ':' :: rest) := hline
    have hsome : (keywordPrefix? (c.line.take n)).isSome := by
      rw [hline]
      refine isSome_keywordPrefix?_take hindent rest ?_
      simp only [LineKind.declared, Text.Cut.asLine] at hafter
      omega
    rw [hfound] at hsome
    cases hsome

private theorem le_stop_of_classified? {o : Nat} {x : CompletionContext}
    (h : classified? d o = some x) : o ≤ x.replaced.stop := by
  simp only [classified?, Option.bind_eq_bind, Option.bind_eq_some_iff] at h
  obtain ⟨l, -, k, -, hx⟩ := h
  rw [Declaration.contextAt?, Option.ite_none_right_eq_some, Option.some.injEq] at hx
  obtain ⟨-, rfl⟩ := hx
  exact k.le_replacedAt_stop o

theorem atCursor?_eq {p q s : List Char} (h : d.text = p ++ (q ++ s)) (hp : Text.EndsRow p)
    (hq : '\n' ∉ q) {cursor : Nat} (ho : d.clamp cursor = p.length + q.length) :
    atCursor? d cursor = (keywordPrefix? (dropReturn q)).map fun x =>
      ⟨x.1, (Text.rows p).length + 1, x.2, ⟨d.backOverReturn cursor - x.2.length,
        max (((d.line? ((Text.rows p).length + 1)).map fun l =>
          l.start + (Text.trimEnd l.text).length).getD (d.backOverReturn cursor))
          (d.backOverReturn cursor)⟩⟩ := by
  have hle := dropReturn_length_le q
  have hcursor : p.length + q.length - (q.length - (dropReturn q).length) =
      d.backOverReturn cursor := by
    rw [Document.backOverReturn_eq h hp ho]
    omega
  simp only [atCursor?, Document.beforeCursor_eq h hp hq ho, ho, hcursor]
  cases keywordPrefix? (dropReturn q) with
  | none => rfl
  | some x => cases d.line? ((Text.rows p).length + 1) <;> rfl

private theorem atCursor?_eq_classified?_of_cut {c : Text.Cut} (h : d.text = c.text)
    {q s : List Char} (hq : '\n' ∉ q) (hrow : c.line ++ c.lineBreak ++ c.after = q ++ s) {n : Nat}
    (hn : n ≤ c.line.length) (hdrop : dropReturn q = c.line.take n) {cursor : Nat}
    (ho : d.clamp cursor = c.before.length + q.length) :
    atCursor? d cursor = classified? d (d.backOverReturn cursor) := by
  have hsplit : d.text = c.before ++ (q ++ s) := by rw [h, Text.Cut.text, hrow]
  have hback : d.backOverReturn cursor = c.before.length + n := by
    rw [Document.backOverReturn_eq hsplit c.endsRow ho, hdrop, List.length_take,
      Nat.min_eq_left hn]
  have hline := Document.line?_of_cut h
  have hread := keywordPrefix?_eq_contextAt? h hn
  rw [atCursor?_eq hsplit c.endsRow hq ho, hback, hdrop, classified?,
    Document.lineHolding?_of_cut h hn]
  simp only [Text.Cut.asLine] at hline hread ⊢
  rw [hline]
  exact hread

theorem atCursor?_eq_classified?_backOverReturn (d : Document) (cursor : Nat) :
    atCursor? d cursor = classified? d (d.backOverReturn cursor) := by
  rcases Text.stands (d.clamp_le_length cursor) with
    ⟨c, k, htext, hinside, hplace⟩ | ⟨c, htext, hpair, hplace⟩ | ⟨hends, hplace⟩
  · -- The row before the cursor is the first part of the line, perhaps with a return at its end.
    have hclean : '\n' ∉ c.line.take k := fun hmem => c.clean (List.mem_of_mem_take hmem)
    have hrow : c.line ++ c.lineBreak ++ c.after =
        c.line.take k ++ (c.line.drop k ++ c.lineBreak ++ c.after) := by
      rw [← List.append_assoc, ← List.append_assoc, List.take_append_drop]
    have hlen : (c.line.take k).length = k := List.length_take_of_le hinside
    rcases dropReturn_cases (c.line.take k) with ⟨hsame, -⟩ | hreturn
    · exact atCursor?_eq_classified?_of_cut htext hclean hrow hinside hsame (by rw [hplace, hlen])
    · have hdrop : dropReturn (c.line.take k) = c.line.take (k - 1) := by
        have htake := congrArg (List.take (k - 1)) hreturn
        have hshort := congrArg List.length hreturn
        rw [List.length_append, List.length_singleton, hlen] at hshort
        rw [List.take_take, Nat.min_eq_left (by omega), List.take_left' (by omega)] at htake
        exact htake.symm
      exact atCursor?_eq_classified?_of_cut htext hclean hrow (by omega) hdrop (by rw [hplace, hlen])
  · -- The cursor stands inside the line break, and the row before it is the line and the return.
    have hclean : '\n' ∉ c.line ++ ['\r'] := by simp [c.clean]
    have hrow : c.line ++ c.lineBreak ++ c.after = c.line ++ ['\r'] ++ '\n' :: c.after := by
      simp [hpair]
    have hdrop : dropReturn (c.line ++ ['\r']) = c.line.take c.line.length := by
      simp [dropReturn]
    refine atCursor?_eq_classified?_of_cut htext hclean hrow (Nat.le_refl _) hdrop ?_
    rw [hplace, List.length_append, List.length_singleton, Nat.add_assoc]
  · -- After the last line break no line holds the cursor, and nothing stands before it in its row.
    have hsplit : d.text = d.text ++ ([] ++ []) := by simp
    have hback := Document.backOverReturn_eq hsplit hends hplace
    rw [atCursor?_eq hsplit hends List.not_mem_nil hplace, hback, classified?]
    rw [show d.text.length + (dropReturn []).length = d.length from rfl,
      Document.lineHolding?_of_endsRow hends]
    rfl

private theorem isSome_classified?_of_afterLoneReturn {cursor : Nat} (h : d.AfterLoneReturn cursor)
    (hsome : (classified? d (d.clamp cursor - 1)).isSome) :
    (classified? d (d.clamp cursor)).isSome := by
  obtain ⟨l, hhere, hbefore⟩ := Document.exists_line_of_afterLoneReturn h
  simp only [classified?, hhere, hbefore, Option.bind_eq_bind, Option.bind_some] at hsome ⊢
  cases hk : (LineKind.ofLine l).declaration? with
  | none => simp [hk] at hsome
  | some k =>
    rw [hk, Option.bind_some] at hsome
    exact Declaration.isSome_contextAt?_mono hsome (Nat.sub_le _ 1)

/-- Completion reads the kind of the cursor's line, with nothing replaced that ends before the cursor,
at every cursor but one directly after a lone carriage return in a name or the blanks around it.
There it answers for the offset before the return. -/
theorem atCursor?_eq_classified?_settle_iff (d : Document) (cursor : Nat) :
    (atCursor? d cursor = classified? d (d.settle cursor) ↔
      ¬(d.AfterLoneReturn cursor ∧ (classified? d (d.settle cursor)).isSome)) ∧
    (∀ x, classified? d (d.settle cursor) = some x → d.settle cursor ≤ x.replaced.stop) ∧
    (d.AfterLoneReturn cursor → atCursor? d cursor = classified? d (d.settle cursor - 1)) := by
  have hback := atCursor?_eq_classified?_backOverReturn d cursor
  by_cases h : d.AfterLoneReturn cursor
  · rw [Document.backOverReturn_of_afterLoneReturn h] at hback
    have hpos := Document.clamp_pos_of_afterLoneReturn h
    have hle := d.clamp_le_length cursor
    rw [Document.settle_of_afterLoneReturn h, hback]
    refine ⟨⟨?_, ?_⟩, fun _ => le_stop_of_classified?, fun _ => rfl⟩
    · -- Equal contexts would have been made for the same offset.
      rintro hsame ⟨-, hsome⟩
      obtain ⟨x, hx⟩ := Option.isSome_iff_exists.mp hsome
      have hthere := offset_of_classified? hx hle
      have hhere := offset_of_classified? (hsame.trans hx) (by omega)
      omega
    · intro hnone
      have hthere : classified? d (d.clamp cursor) = none :=
        Option.not_isSome_iff_eq_none.mp fun hsome => hnone ⟨h, hsome⟩
      have hhere : classified? d (d.clamp cursor - 1) = none := by
        refine Option.not_isSome_iff_eq_none.mp fun hsome => hnone ⟨h, ?_⟩
        exact isSome_classified?_of_afterLoneReturn h hsome
      rw [hthere, hhere]
  · rw [hback, Document.backOverReturn_eq_settle h]
    refine ⟨⟨fun _ hlone => h hlone.1, fun _ => rfl⟩, fun _ => le_stop_of_classified?, ?_⟩
    exact fun hlone => absurd hlone h

theorem atCursor?_eq_classified?_settle_iff_returns :
    (¬Document.AfterLoneReturn (.ofText "SCOPE: a\r\n".toList) 9 ∧
      atCursor? (.ofText "SCOPE: a\r\n".toList) 9 = classified? (.ofText "SCOPE: a\r\n".toList) 8) ∧
    (Document.AfterLoneReturn (.ofText "SCOPE: a\rb".toList) 9 ∧
      atCursor? (.ofText "SCOPE: a\rb".toList) 9 = classified? (.ofText "SCOPE: a\rb".toList) 8) := by
  have hbreak : ¬Document.AfterLoneReturn (.ofText "SCOPE: a\r\n".toList) 9 := by decide
  have hlone : Document.AfterLoneReturn (.ofText "SCOPE: a\rb".toList) 9 := by decide
  exact ⟨⟨hbreak, (atCursor?_eq_classified?_settle_iff _ 9).1.mpr fun h => hbreak h.1⟩,
    hlone, (atCursor?_eq_classified?_settle_iff _ 9).2.2 hlone⟩

/-- After the return of `SCOPE:\r` the answer replaces nothing before the return, not nothing after
it. -/
theorem atCursor?_ne_classified?_loneReturn :
    atCursor? (.ofText "SCOPE:\r".toList) 7 = some ⟨.scope, 1, [], ⟨6, 6⟩⟩ ∧
      classified? (.ofText "SCOPE:\r".toList) (Document.settle (.ofText "SCOPE:\r".toList) 7) =
        some ⟨.scope, 1, [], ⟨7, 7⟩⟩ := by
  decide

end CompletionContext

end MetaBlocks
