import Mathlib.Algebra.Group.Nat.Defs
import MetaBlocks.Proofs.Grammar

/-!
Checked reading of documents. A machine counts in words of 64 bits, cuts texts at byte offsets and
reads lists at indices, and each of these can go wrong. Here lines, the text before a cursor and the
kinds of lines are read with steps that stop at a fault. On a text that fits in memory no fault is
met, and the results are those of the definitions that count characters.
-/

set_option autoImplicit false
set_option relaxedAutoImplicit false

namespace MetaBlocks

namespace Text

theorem byteLength_append (s t : List Char) :
    byteLength (s ++ t) = byteLength s + byteLength t := by
  induction s with
  | nil => simp [byteLength]
  | cons c s ih =>
    simp only [List.cons_append, byteLength, ih]
    omega

private theorem byteLength_eq_zero_iff {s : List Char} : byteLength s = 0 ↔ s = [] := by
  cases s with
  | nil => simp [byteLength]
  | cons c s =>
    have hpos := c.utf8Size_pos
    simp only [byteLength, reduceCtorEq, iff_false]
    omega

private theorem length_le_byteLength (s : List Char) : s.length ≤ byteLength s := by
  induction s with
  | nil => exact Nat.le_refl 0
  | cons c s ih =>
    have hpos := c.utf8Size_pos
    simp only [List.length_cons, byteLength]
    omega

end Text

/-- The text is one that memory can hold: its bytes are counted by a signed word. -/
def Document.Fits (d : Document) : Prop := Text.byteLength d.text < 2 ^ 63

instance (d : Document) : Decidable d.Fits := inferInstanceAs (Decidable (_ < _))

private theorem Document.Fits.length_lt {d : Document} (h : d.Fits) : d.length < 2 ^ 63 :=
  Nat.lt_of_le_of_lt (Text.length_le_byteLength d.text) h

namespace Checked

inductive Fault where
  | overflow
  | underflow
  | outOfRange
  | insideCharacter
  deriving DecidableEq, Repr

def add (a b : Nat) : Except Fault Nat :=
  if a + b < 2 ^ 64 then pure (a + b) else throw .overflow

def sub (a b : Nat) : Except Fault Nat := if b ≤ a then pure (a - b) else throw .underflow

/-- The answer of an index that covers the places up to a bound. -/
def lookup {α : Type} (bound place : Nat) (answer : α) : Except Fault α :=
  if place ≤ bound then pure answer else throw .outOfRange

def get {α : Type} (xs : List α) (i : Nat) : Except Fault α :=
  match xs[i]? with
  | some x => pure x
  | none => throw .outOfRange

def slice {α : Type} (xs : List α) (e : Extent) : Except Fault (List α) :=
  if e.start ≤ e.stop ∧ e.stop ≤ xs.length then pure ((xs.take e.stop).drop e.start)
  else throw .outOfRange

/-- The characters that fill the first bytes of a text, and the rest of it; there are none if the
bytes end inside a character or after the text. -/
def splitBytes? : Nat → List Char → Option (List Char × List Char)
  | 0, s => some ([], s)
  | _ + 1, [] => none
  | b + 1, c :: s =>
    if c.utf8Size ≤ b + 1 then
      (splitBytes? (b + 1 - c.utf8Size) s).map fun (p, t) => (c :: p, t)
    else none

def sliceBytes (s : List Char) (start stop : Nat) : Except Fault (List Char) :=
  if start ≤ stop ∧ stop ≤ Text.byteLength s then
    match (splitBytes? start s).bind fun (_, t) => splitBytes? (stop - start) t with
    | some (m, _) => pure m
    | none => throw .insideCharacter
  else throw .outOfRange

theorem add_eq {a b : Nat} (h : a + b < 2 ^ 64) : add a b = pure (a + b) := if_pos h

theorem sub_eq {a b : Nat} (h : b ≤ a) : sub a b = pure (a - b) := if_pos h

private theorem lookup_eq {α : Type} {bound place : Nat} (h : place ≤ bound) (answer : α) :
    lookup bound place answer = pure answer := if_pos h

section Lists

variable {α : Type}

theorem get_append (p : List α) (x : α) (q : List α) : get (p ++ x :: q) p.length = pure x := by
  rw [get, List.getElem?_append_right (Nat.le_refl _), Nat.sub_self, List.getElem?_cons_zero]

theorem slice_append (p m q : List α) :
    slice (p ++ (m ++ q)) ⟨p.length, p.length + m.length⟩ = pure m := by
  have hbounds : p.length ≤ p.length + m.length ∧
      p.length + m.length ≤ (p ++ (m ++ q)).length := by
    simp only [List.length_append]
    omega
  rw [slice, if_pos hbounds, List.take_length_add_append, List.take_left, List.drop_left]

theorem mapM_eq {β : Type} {f : α → Except Fault β} {g : α → β} {xs : List α}
    (h : ∀ x ∈ xs, f x = pure (g x)) : xs.mapM f = pure (xs.map g) := by
  induction xs with
  | nil => rfl
  | cons x xs ih =>
    have hrest := ih fun y hy => h y (List.mem_cons_of_mem x hy)
    rw [List.mapM_cons, h x List.mem_cons_self, hrest, pure_bind, pure_bind, List.map_cons]

end Lists

private theorem splitBytes?_eq_some_iff {b : Nat} {s p t : List Char} :
    splitBytes? b s = some (p, t) ↔ s = p ++ t ∧ Text.byteLength p = b := by
  induction s generalizing b p with
  | nil =>
    cases b with
    | zero =>
      rw [splitBytes?, Text.byteLength_eq_zero_iff]
      grind
    | succ b =>
      rw [splitBytes?, List.nil_eq_append_iff]
      grind [Text.byteLength]
  | cons c s ih =>
    cases b with
    | zero =>
      rw [splitBytes?, Text.byteLength_eq_zero_iff]
      grind
    | succ b =>
      rw [splitBytes?, Option.ite_none_right_eq_some, Option.map_eq_some_iff]
      constructor
      · rintro ⟨hle, ⟨p', t'⟩, hsplit, hpair⟩
        obtain ⟨rfl, rfl⟩ : c :: p' = p ∧ t' = t := by simpa using hpair
        obtain ⟨rfl, hlen⟩ := ih.mp hsplit
        refine ⟨rfl, ?_⟩
        rw [Text.byteLength]
        omega
      · rintro ⟨htext, hlen⟩
        cases p with
        | nil => cases hlen
        | cons e p' =>
          obtain ⟨rfl, rfl⟩ : c = e ∧ s = p' ++ t := by simpa using htext
          rw [Text.byteLength] at hlen
          exact ⟨by omega, (p', t), ih.mpr ⟨rfl, by omega⟩, rfl⟩

theorem sliceBytes_eq_iff {s m : List Char} {start stop : Nat} :
    sliceBytes s start stop = pure m ↔ ∃ p q, s = p ++ (m ++ q) ∧ Text.byteLength p = start ∧
      start + Text.byteLength m = stop := by
  constructor
  · intro h
    unfold sliceBytes at h
    split at h
    next hbounds =>
      split at h
      next m' q hsplit =>
        obtain ⟨⟨p, t⟩, hp, hm⟩ := Option.bind_eq_some_iff.mp hsplit
        obtain ⟨rfl, hstart⟩ := splitBytes?_eq_some_iff.mp hp
        obtain ⟨rfl, hstop⟩ := splitBytes?_eq_some_iff.mp hm
        obtain rfl : m' = m := Except.ok.inj h
        exact ⟨p, q, rfl, hstart, by omega⟩
      next => cases h
    next => cases h
  · rintro ⟨p, q, rfl, rfl, rfl⟩
    have hbounds : Text.byteLength p ≤ Text.byteLength p + Text.byteLength m ∧
        Text.byteLength p + Text.byteLength m ≤ Text.byteLength (p ++ (m ++ q)) := by
      simp only [Text.byteLength_append]
      omega
    have hfirst : splitBytes? (Text.byteLength p) (p ++ (m ++ q)) = some (p, m ++ q) :=
      splitBytes?_eq_some_iff.mpr ⟨rfl, rfl⟩
    have hsecond : splitBytes? (Text.byteLength m) (m ++ q) = some (m, q) :=
      splitBytes?_eq_some_iff.mpr ⟨rfl, rfl⟩
    simp only [sliceBytes, if_pos hbounds, hfirst, Option.bind_some, Nat.add_sub_cancel_left,
      hsecond]

example : sliceBytes "né".toList 1 3 = .ok "é".toList := by rfl

example : sliceBytes "né".toList 0 2 = .error .insideCharacter := by rfl

section Reading

variable (d : Document)

/-- The start of a row in bytes; the index knows the rows of the text only. -/
def rowByteStart (row : Nat) : Except Fault Nat :=
  if d.rowCount ≤ row then pure (Text.byteLength d.text)
  else lookup d.rowCount row (d.rowByteStart row)

def rowStart (row : Nat) : Except Fault Nat :=
  if d.rowCount ≤ row then pure d.length else lookup d.rowCount row (d.rowStart row)

def lineCount : Except Fault Nat := do
  let lastStart ← lookup d.rowCount (d.rowCount - 1) (d.rowStart (d.rowCount - 1))
  if lastStart = d.length then sub d.rowCount 1 else return d.rowCount

def line (number : Nat) : Except Fault (Option Line) := do
  let count ← lineCount d
  if number = 0 ∨ count < number then return none
  let row ← sub number 1
  let next ← add row 1
  let text := Text.withoutBreak (← sliceBytes d.text (← rowByteStart d row) (← rowByteStart d next))
  let start ← rowStart d row
  let _stop ← add start text.length
  return some ⟨number, start, text, ← rowStart d next⟩

def lines : Except Fault (List Line) := do
  let count ← lineCount d
  return (← (List.range' 1 count).mapM (line d)).filterMap id

def beforeCursor (cursor : Nat) : Except Fault (Nat × List Char) := do
  let o := d.clamp cursor
  let row ← lookup d.length o ((d.text.take o).count '\n')
  let _column ← sub o (← lookup d.rowCount row (d.rowStart row))
  let startByte ← rowByteStart d row
  let cursorByte ← lookup d.length o (d.byteOffset o)
  return (← add row 1, ← sliceBytes d.text startByte cursorByte)

end Reading

def column (l : Line) (byte : Nat) : Except Fault Nat := do
  add l.start (← sliceBytes l.text 0 byte).length

/-- The kind of a line whose parts are known by their bytes. -/
def kind (l : Line) : Except Fault LineKind := do
  if l.isBlank then return .blank
  if LineKind.isDelimiterText l.text then return .delimiter
  match LineKind.field? l.text with
  | none => return .text
  | some f =>
    let keyByte := Text.byteLength f.indent
    let colonByte := keyByte + Text.byteLength f.key
    let valueByte := colonByte + 1 + Text.byteLength f.gap
    let keyExtent : Extent := ⟨← column l keyByte, ← column l colonByte⟩
    let valueStart ← column l valueByte
    let valueExtent : Extent := ⟨valueStart, ← add valueStart f.value.length⟩
    match Keyword.ofKey? f.key with
    | some k => return .declaration ⟨k, l.number, keyExtent, f.value, valueExtent⟩
    | none =>
      return .entry ⟨l.number, f.key, keyExtent, f.value, valueExtent, ValueType.infer f.value⟩

def kindedLines (d : Document) : Except Fault (List KindedLine) := do
  (← lines d).mapM fun l => return ⟨l, ← kind l⟩

section Reading

variable {d : Document}

private theorem length_rows_le_rowCount (d : Document) :
    (Text.rows d.text).length ≤ d.rowCount := by
  have hcount := d.lineCount_eq
  rw [Document.lineCount] at hcount
  split at hcount
  all_goals omega

private theorem rowCount_le (hfits : d.Fits) : d.rowCount ≤ 2 ^ 63 := by
  have hcount : d.text.count '\n' ≤ d.length := List.count_le_length
  have hbound := hfits.length_lt
  rw [Document.rowCount]
  omega

theorem lineCount_le (hfits : d.Fits) : d.lineCount ≤ 2 ^ 63 :=
  Nat.le_trans (length_rows_le_rowCount d) (rowCount_le hfits)

private theorem flatten_take_rows {row : Nat} (h : d.rowCount ≤ row) :
    ((Text.rows d.text).take row).flatten = d.text := by
  rw [List.take_of_length_le (Nat.le_trans (length_rows_le_rowCount d) h), Text.rows_flatten]

private theorem rowByteStart_eq (row : Nat) : rowByteStart d row = pure (d.rowByteStart row) := by
  unfold rowByteStart
  split
  next hpast => rw [Document.rowByteStart, flatten_take_rows hpast]
  next hin => exact lookup_eq (by omega) _

private theorem rowStart_eq (row : Nat) : rowStart d row = pure (d.rowStart row) := by
  unfold rowStart
  split
  next hpast => rw [Document.rowStart, flatten_take_rows hpast, Document.length]
  next hin => exact lookup_eq (by omega) _

private theorem lastStart_eq_length_iff :
    d.rowStart (d.rowCount - 1) = d.length ↔ d.endsWithEmptyRow = true := by
  obtain ⟨p, q, htext, hp, hq⟩ := Text.exists_endsRow_append d.text
  have hlast : d.rowCount - 1 = (Text.rows p).length := by
    rw [Document.rowCount, Nat.add_sub_cancel, htext, List.count_append, List.count_eq_zero.mpr hq,
      Nat.add_zero, Text.length_rows hp]
  rw [hlast, Document.rowStart_of_endsRow htext hp, Document.length, htext, List.length_append,
    d.endsWithEmptyRow_iff, htext]
  constructor
  · intro hlen
    have hnil : q = [] := List.length_eq_zero_iff.mp (by omega)
    rwa [hnil, List.append_nil]
  · intro hends
    rw [hends.eq_nil_of_append hq]
    rfl

theorem lineCount_eq : lineCount d = pure d.lineCount := by
  have hpos : 0 < d.rowCount := Nat.succ_pos _
  rw [lineCount, lookup_eq (by omega), pure_bind, d.lineCount_eq]
  by_cases hends : d.endsWithEmptyRow = true
  · rw [if_pos (lastStart_eq_length_iff.mpr hends), if_pos hends, sub_eq hpos]
  · rw [if_neg fun h => hends (lastStart_eq_length_iff.mp h), if_neg hends]

private theorem text_eq_of_row {i : Nat} {r : List Char} (h : (Text.rows d.text)[i]? = some r) :
    d.text = ((Text.rows d.text).take i).flatten ++
      (r ++ ((Text.rows d.text).drop (i + 1)).flatten) := by
  obtain ⟨hi, rfl⟩ := List.getElem?_eq_some_iff.mp h
  have hdrop : (Text.rows d.text)[i] :: (Text.rows d.text).drop (i + 1) =
      (Text.rows d.text).drop i := (List.drop_eq_getElem_cons hi).symm
  rw [← List.flatten_cons, hdrop, ← List.flatten_append, List.take_append_drop, Text.rows_flatten]

private theorem rowByteStart_succ {i : Nat} {r : List Char} (h : (Text.rows d.text)[i]? = some r) :
    d.rowByteStart (i + 1) = d.rowByteStart i + Text.byteLength r := by
  rw [Document.rowByteStart, List.take_add_one, h, List.flatten_append, Text.byteLength_append]
  simp [Document.rowByteStart]

theorem stop_lt (hfits : d.Fits) {l : Line} (hl : l ∈ d.lines) : l.stop < 2 ^ 64 := by
  obtain ⟨i, hi⟩ := List.mem_iff_getElem?.mp hl
  have hat := d.line_at hi
  have hlength := d.rowStart_le_length (i + 1)
  have hbound := hfits.length_lt
  omega

theorem line_eq (hfits : d.Fits) (number : Nat) : line d number = pure (d.line? number) := by
  rw [line, lineCount_eq, pure_bind]
  split
  next hout =>
    rcases hout with rfl | hpast
    · rfl
    · obtain ⟨i, rfl⟩ := Nat.exists_eq_add_one_of_ne_zero (by omega : number ≠ 0)
      rw [Document.line?, List.getElem?_eq_none (by rw [d.length_lines]; omega)]
  next hin =>
    obtain ⟨i, rfl⟩ := Nat.exists_eq_add_one_of_ne_zero (fun hzero => hin (.inl hzero))
    have hi : i < (Text.rows d.text).length := by
      rw [Document.lineCount] at hin
      omega
    have hrow := List.getElem?_eq_getElem hi
    generalize (Text.rows d.text)[i] = r at hrow
    have hslice : sliceBytes d.text (d.rowByteStart i) (d.rowByteStart (i + 1)) = pure r :=
      sliceBytes_eq_iff.mpr ⟨_, _, text_eq_of_row hrow, rfl, (rowByteStart_succ hrow).symm⟩
    have hline := d.lines_getElem? i
    rw [hrow, Option.map_some] at hline
    have hstop : d.rowStart i + (Text.withoutBreak r).length < 2 ^ 64 :=
      stop_lt hfits (List.mem_of_getElem? hline)
    have hnext : i + 1 < 2 ^ 64 := by
      have hbound := lineCount_le hfits
      omega
    simp only [sub_eq (Nat.le_add_left 1 i), Nat.add_sub_cancel, add_eq hnext, rowByteStart_eq,
      rowStart_eq, hslice, add_eq hstop, pure_bind]
    rw [Document.line?, hline]

theorem lines_eq (hfits : d.Fits) : lines d = pure d.lines := by
  have hmap : (List.range' 1 d.lineCount).mapM (line d) =
      pure ((List.range' 1 d.lineCount).map d.line?) := mapM_eq fun number _ => line_eq hfits number
  rw [lines, lineCount_eq, pure_bind, hmap, pure_bind, List.filterMap_map]
  exact congrArg pure d.filterMap_line?

theorem beforeCursor_eq (hfits : d.Fits) (cursor : Nat) :
    beforeCursor d cursor = pure (d.beforeCursor cursor) := by
  obtain ⟨p, q, s, htext, hp, hq, hclamp⟩ := d.exists_row_before cursor
  have htake : d.text.take (p.length + q.length) = p ++ q := by
    rw [htext, ← List.append_assoc, ← List.length_append, List.take_left]
  have hrow : (d.text.take (p.length + q.length)).count '\n' = (Text.rows p).length := by
    rw [htake, List.count_append, List.count_eq_zero.mpr hq, Nat.add_zero, Text.length_rows hp]
  have hrows : (Text.rows p).length + 1 ≤ d.rowCount := by
    rw [Document.rowCount, htext, List.count_append, ← Text.length_rows hp]
    omega
  have hin : p.length + q.length ≤ d.length := hclamp ▸ Nat.min_le_right cursor _
  have hstart : d.rowByteStart (Text.rows p).length = Text.byteLength p := by
    rw [Document.rowByteStart, htext, Text.rows_append hp, List.take_left, Text.rows_flatten]
  have hcursor : d.byteOffset (p.length + q.length) = Text.byteLength p + Text.byteLength q := by
    rw [Document.byteOffset, htake, Text.byteLength_append]
  have hslice : sliceBytes d.text (Text.byteLength p) (Text.byteLength p + Text.byteLength q) =
      pure q := sliceBytes_eq_iff.mpr ⟨p, s, htext, rfl, rfl⟩
  have hnumber : (Text.rows p).length + 1 < 2 ^ 64 := by
    have hbound := rowCount_le hfits
    omega
  rw [Document.beforeCursor_eq htext hp hq hclamp]
  simp only [beforeCursor, hclamp, hrow, lookup_eq hin, lookup_eq (Nat.le_of_succ_le hrows),
    Document.rowStart_of_endsRow htext hp, sub_eq (Nat.le_add_right p.length q.length),
    rowByteStart_eq, hstart, hcursor, add_eq hnumber, hslice, pure_bind]

variable {l : Line}

private theorem column_eq {p q : List Char} (htext : l.text = p ++ q) (hstop : l.stop < 2 ^ 64) :
    column l (Text.byteLength p) = pure (l.start + p.length) := by
  have hslice : sliceBytes l.text 0 (Text.byteLength p) = pure p :=
    sliceBytes_eq_iff.mpr ⟨[], q, htext, rfl, Nat.zero_add _⟩
  have hbound : l.start + p.length < 2 ^ 64 := by
    rw [Line.stop, htext, List.length_append] at hstop
    omega
  rw [column, hslice, pure_bind, add_eq hbound]

private theorem kind_eq (hstop : l.stop < 2 ^ 64) : kind l = pure (.ofLine l) := by
  unfold kind LineKind.ofLine
  split
  next => rfl
  split
  next => rfl
  cases hfield : LineKind.field? l.text with
  | none => rfl
  | some f =>
    obtain ⟨rest, hkeyed, hgap, hvalue⟩ := LineKind.field?_eq_some_iff.mp hfield
    obtain ⟨trail, hrest, -⟩ := Text.exists_trail rest
    rw [← hgap, ← hvalue] at hrest
    have htext := hkeyed.text
    have hkey := column_eq htext hstop
    have hcolon : column l (Text.byteLength f.indent + Text.byteLength f.key) =
        pure (l.start + f.indent.length + f.key.length) := by
      have hcut : l.text = (f.indent ++ f.key) ++ ':' :: rest := by rw [htext, List.append_assoc]
      rw [← Text.byteLength_append, column_eq hcut hstop, List.length_append, Nat.add_assoc]
    have hstart : column l
        (Text.byteLength f.indent + Text.byteLength f.key + 1 + Text.byteLength f.gap) =
          pure (l.start + f.indent.length + f.key.length + 1 + f.gap.length) := by
      have hcut : l.text = (f.indent ++ f.key ++ [':'] ++ f.gap) ++ (f.value ++ trail) := by
        simp [htext, hrest]
      have hcolumn := column_eq hcut hstop
      have hone : Text.byteLength [':'] = 1 := by decide
      simp only [Text.byteLength_append, hone, List.length_append, List.length_singleton] at hcolumn
      simpa only [Nat.add_assoc] using hcolumn
    have hend : l.start + f.indent.length + f.key.length + 1 + f.gap.length + f.value.length <
        2 ^ 64 := by
      rw [Line.stop, htext, hrest] at hstop
      simp only [List.length_append, List.length_cons] at hstop
      omega
    simp only [hkey, hcolon, hstart, add_eq hend, pure_bind, LineKind.ofField]
    cases Keyword.ofKey? f.key <;> rfl

theorem kindedLines_eq (hfits : d.Fits) : kindedLines d = pure d.kindedLines := by
  have hkinds : ∀ l ∈ d.lines,
      (do return ⟨l, ← kind l⟩ : Except Fault KindedLine) = pure (.ofLine l) := by
    intro l hl
    rw [kind_eq (stop_lt hfits hl), pure_bind]
    rfl
  rw [kindedLines, lines_eq hfits, pure_bind, mapM_eq hkinds, Document.kindedLines]

end Reading

end Checked

end MetaBlocks
