import MetaBlocks.Proofs.Correspondence
import MetaBlocks.Proofs.Kinds

/-!
Detections moved to other places. A relocation says where line numbers and offsets go. When the
lines of a document are those of another one moved by a relocation, text for text, the kinds of the
lines move along, and so does the whole detection.
-/

set_option autoImplicit false
set_option relaxedAutoImplicit false

namespace MetaBlocks

/-- Where line numbers and offsets go; lines that follow each other still do. -/
structure Relocation where
  line : Nat → Nat
  offset : Nat → Nat
  line_succ : ∀ n, line (n + 1) = line n + 1

def Relocation.shift (lines chars : Nat) : Relocation where
  line := (· + lines)
  offset := (· + chars)
  line_succ := fun n => Nat.add_right_comm n 1 lines

variable (m : Relocation)

def Extent.relocate (f : Nat → Nat) (e : Extent) : Extent := ⟨f e.start, f e.stop⟩

def Delimiter.relocate (d : Delimiter) : Delimiter := ⟨m.line d.line, d.extent.relocate m.offset⟩

def Declaration.relocate (d : Declaration) : Declaration :=
  ⟨d.keyword, m.line d.line, d.keywordExtent.relocate m.offset, d.name,
    d.nameExtent.relocate m.offset⟩

def Entry.relocate (e : Entry) : Entry :=
  ⟨m.line e.line, e.key, e.keyExtent.relocate m.offset, e.value, e.valueExtent.relocate m.offset,
    e.type⟩

def Block.relocate (b : Block) : Block where
  opening := b.opening.relocate m
  closing := b.closing.relocate m
  bodyLines := b.bodyLines.relocate m.line
  bodyExtent := b.bodyExtent.relocate m.offset
  lineExtents := b.lineExtents.map (Extent.relocate m.offset)
  declarations := b.declarations.map (Declaration.relocate m)
  entries := b.entries.map (Entry.relocate m)

def Detection.relocate (x : Detection) : Detection where
  blocks := x.blocks.map (Block.relocate m)
  orphans := x.orphans.map (Delimiter.relocate m)
  rules := x.rules.map (Delimiter.relocate m)

def LineKind.relocate : LineKind → LineKind
  | blank => blank
  | delimiter => delimiter
  | declaration d => declaration (d.relocate m)
  | entry e => entry (e.relocate m)
  | text => text

structure Line.Moved (l l' : Line) : Prop where
  text : l'.text = l.text
  number : l'.number = m.line l.number
  within : ∀ k ≤ l.text.length, l'.start + k = m.offset (l.start + k)
  nextStart : l'.nextStart = m.offset l.nextStart

private theorem Line.Moved.start {m : Relocation} {l l' : Line} (h : l.Moved m l') :
    l'.start = m.offset l.start := h.within 0 (Nat.zero_le _)

private theorem Line.Moved.stop {m : Relocation} {l l' : Line} (h : l.Moved m l') :
    l'.stop = m.offset l.stop := by
  rw [Line.stop, h.text, h.within _ (Nat.le_refl _), Line.stop]

/-- The same text on another line, with the same meaning there. -/
structure KindedLine.Moved (a b : KindedLine) : Prop where
  line : a.line.Moved m b.line
  kind : b.kind = a.kind.relocate m

variable {m}

namespace LineKind

private theorem ofField_moved {l l' : Line} (h : l.Moved m l') {f : Field}
    (hf : field? l.text = some f) : ofField l' f = (ofField l f).relocate m := by
  obtain ⟨t, htext⟩ := eq_of_field?_eq_some hf
  have hlen := congrArg List.length htext
  simp only [List.length_append, List.length_cons] at hlen
  -- Each part lies within the text of the line, whose offsets move together.
  have hkeyStart := h.within f.indent.length (by omega)
  have hkeyStop := h.within (f.indent.length + f.key.length) (by omega)
  have hvalueStart := h.within (f.indent.length + f.key.length + 1 + f.gap.length) (by omega)
  have hvalueStop := h.within
    (f.indent.length + f.key.length + 1 + f.gap.length + f.value.length) (by omega)
  simp only [← Nat.add_assoc] at hkeyStop hvalueStart hvalueStop
  simp only [ofField, hvalueStop, h.number]
  rw [hvalueStart, hkeyStop, hkeyStart]
  cases Keyword.ofKey? f.key with
  | some k => rfl
  | none => rfl

private theorem ofLine_moved {l l' : Line} (h : l.Moved m l') :
    ofLine l' = (ofLine l).relocate m := by
  unfold ofLine
  rw [Line.isBlank, Line.isBlank, h.text]
  split
  · rfl
  · split
    · rfl
    · cases hf : field? l.text with
      | none => rfl
      | some f => exact ofField_moved h hf

private theorem relocate_eq_delimiter_iff {k : LineKind} :
    k.relocate m = .delimiter ↔ k = .delimiter := by
  cases k <;> simp [relocate]

private theorem relocate_eq_blank_iff {k : LineKind} : k.relocate m = .blank ↔ k = .blank := by
  cases k <;> simp [relocate]

private theorem declaration?_relocate (k : LineKind) :
    (k.relocate m).declaration? = k.declaration?.map (Declaration.relocate m) := by
  cases k <;> rfl

private theorem entry?_relocate (k : LineKind) :
    LineKind.entry? (k.relocate m) = k.entry?.map (Entry.relocate m) := by
  cases k <;> rfl

end LineKind

namespace KindedLine

theorem moved_ofLine {l l' : Line} (h : l.Moved m l') : Moved m (.ofLine l) (.ofLine l') :=
  ⟨h, LineKind.ofLine_moved h⟩

theorem alike_moved : Alike (Moved m) where
  isDelimiter := by
    intro a b h
    simp only [KindedLine.isDelimiter, h.kind, LineKind.relocate_eq_delimiter_iff]
  qualifies := by
    intro a b h
    rw [KindedLine.qualifies, KindedLine.qualifies, h.kind]
    cases a.kind <;> rfl
  isBlank := by
    intro a b h
    simp only [KindedLine.isBlank, h.kind, LineKind.relocate_eq_blank_iff]

private theorem Moved.asDelimiter {a b : KindedLine} (h : a.Moved m b) :
    b.asDelimiter = a.asDelimiter.relocate m := by
  simp only [KindedLine.asDelimiter, Delimiter.relocate, Extent.relocate, h.line.number,
    h.line.start, h.line.stop]

private theorem Moved.fullExtent {a b : KindedLine} (h : a.Moved m b) :
    b.fullExtent = a.fullExtent.relocate m.offset := by
  simp only [KindedLine.fullExtent, Extent.relocate, h.line.start, h.line.nextStart]

end KindedLine

variable {ls ms : List KindedLine}

private theorem map_of_moved {α : Type} {f : KindedLine → α} {g : α → α}
    (hfg : ∀ a b, a.Moved m b → f b = g (f a)) (h : List.Forall₂ (KindedLine.Moved m) ls ms) :
    ms.map f = (ls.map f).map g := by
  have hmap := map_eq_map_of_forall₂ (fun a b hab => (hfg a b hab).symm) h
  rw [List.map_map, ← hmap]
  rfl

private theorem filterMap_of_moved {α : Type} {f : KindedLine → Option α} {g : α → α}
    (hfg : ∀ a b, a.Moved m b → f b = (f a).map g)
    (h : List.Forall₂ (KindedLine.Moved m) ls ms) :
    ms.filterMap f = (ls.filterMap f).map g := by
  have hmap := filterMap_eq_filterMap_of_forall₂ (fun a b hab => (hfg a b hab).symm) h
  rw [List.map_filterMap, hmap]

namespace Block

private theorem Corresponds.eq_relocate {b b' : Block} (h : b.Corresponds (KindedLine.Moved m) b') :
    b' = b.relocate m := by
  obtain ⟨s, t, x, y, hst, hxy, rfl, rfl⟩ := h
  have hstart := map_of_moved (f := (·.line.start)) (fun _ _ hab => hab.line.start) hst.body
  have hstop := map_of_moved (f := (·.line.stop)) (fun _ _ hab => hab.line.stop) hst.body
  have hlines : List.Forall₂ (KindedLine.Moved m) (s.head :: (s.body ++ [x]))
      (t.head :: (t.body ++ [y])) := .cons hst.head (List.rel_append hst.body (.cons hxy .nil))
  have hextents := map_of_moved (fun _ _ hab => hab.fullExtent) hlines
  have hdeclarations := filterMap_of_moved (f := fun l => l.kind.declaration?)
    (fun _ _ hab => by rw [hab.kind, LineKind.declaration?_relocate]) hst.body
  have hentries := filterMap_of_moved (f := fun l => l.kind.entry?)
    (fun _ _ hab => by rw [hab.kind, LineKind.entry?_relocate]) hst.body
  have hfirst : (t.body.head?.map (·.line.start)).getD t.head.line.stop =
      m.offset ((s.body.head?.map (·.line.start)).getD s.head.line.stop) := by
    rw [← List.head?_map, ← List.head?_map, hstart, List.head?_map, hst.head.line.stop,
      Option.getD_map]
  have hlast : (t.body.getLast?.map (·.line.stop)).getD t.head.line.stop =
      m.offset ((s.body.getLast?.map (·.line.stop)).getD s.head.line.stop) := by
    rw [← List.getLast?_map, ← List.getLast?_map, hstop, List.getLast?_map, hst.head.line.stop,
      Option.getD_map]
  simp only [ofSection, relocate, Extent.relocate, hst.head.asDelimiter, hxy.asDelimiter, hfirst,
    hlast, hextents, hdeclarations, hentries, hst.head.line.number, hxy.line.number, m.line_succ]

end Block

private theorem Delimiter.Corresponds.eq_relocate {e e' : Delimiter}
    (h : e.Corresponds (KindedLine.Moved m) e') : e' = e.relocate m := by
  obtain ⟨a, b, hab, rfl, rfl⟩ := h
  exact hab.asDelimiter

theorem Detection.Corresponds.eq_relocate {x y : Detection}
    (h : x.Corresponds (KindedLine.Moved m) y) : y = x.relocate m := by
  have hblocks := map_eq_map_of_forall₂ (fun _ _ hb => hb.eq_relocate.symm) h.blocks
  have horphans := map_eq_map_of_forall₂ (fun _ _ he => he.eq_relocate.symm) h.orphans
  have hrules := map_eq_map_of_forall₂ (fun _ _ he => he.eq_relocate.symm) h.rules
  rw [List.map_id'] at hblocks horphans hrules
  rw [relocate, hblocks, horphans, hrules]

end MetaBlocks
