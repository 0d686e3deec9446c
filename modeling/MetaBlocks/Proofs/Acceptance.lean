import MetaBlocks.Proofs.Blocks
import MetaBlocks.Proofs.Candidates
import MetaBlocks.Proofs.Correspondence
import MetaBlocks.Proofs.CursorContexts

/-!
Accepting a candidate. What a completion context lets a candidate replace lies after the colon of
one keyword line, between blanks. With a label put there the line is still a declaration of the same
keyword, now with the label as its name, and every other line keeps its number and its text; so the
detection of the changed document is the old one, that name and the offsets apart.
-/

set_option autoImplicit false
set_option relaxedAutoImplicit false

namespace MetaBlocks

namespace Text

/-- A text that can stand as a name: it has characters, no line feed, and no white space at either
end. -/
structure IsLabel (s : List Char) : Prop where
  ne_nil : s ≠ []
  clean : '\n' ∉ s
  head : ∀ c ∈ s.head?, isBlank c = false
  last : ∀ c ∈ s.getLast?, isBlank c = false

private theorem trim_eq_of_isLabel {label lead trail : List Char} (h : IsLabel label)
    (hlead : isBlankText lead = true) (htrail : isBlankText trail = true) :
    trim (lead ++ (label ++ trail)) = label := by
  have hhead : ∀ c ∈ (label ++ trail).head?, isBlank c = false := by
    rw [List.head?_append_of_ne_nil _ h.ne_nil]
    exact h.head
  rw [trim, trimStart_append hlead hhead, trimEnd_append label htrail, trimEnd_eq_self h.last]

end Text

def Document.replace (d : Document) (e : Extent) (s : List Char) : Document :=
  ⟨d.text.take e.start ++ (s ++ d.text.drop e.stop), d.revision⟩

/-! What a detection says, but for offsets and the name on one line. -/

/-- A declaration without its offsets, and without its name if it stands on line `n`. -/
def Declaration.outline (n : Nat) (k : Declaration) : Keyword × Nat × Option (List Char) :=
  (k.keyword, k.line, if k.line = n then none else some k.name)

def Entry.outline (e : Entry) : Nat × List Char × List Char × ValueType :=
  (e.line, e.key, e.value, e.type)

structure Block.Outline where
  opening : Nat
  closing : Nat
  declarations : List (Keyword × Nat × Option (List Char))
  entries : List (Nat × List Char × List Char × ValueType)
  deriving DecidableEq, Repr

def Block.outline (n : Nat) (b : Block) : Outline :=
  ⟨b.opening.line, b.closing.line, b.declarations.map (·.outline n), b.entries.map (·.outline)⟩

structure Detection.Outline where
  blocks : List Block.Outline
  orphans : List Nat
  rules : List Nat
  deriving DecidableEq, Repr

def Detection.outline (n : Nat) (x : Detection) : Outline :=
  ⟨x.blocks.map (·.outline n), x.orphans.map (·.line), x.rules.map (·.line)⟩

/-- Kinds that differ at most in offsets and in the name of a declaration on line `n`. -/
inductive LineKind.SameBut (n : Nat) : LineKind → LineKind → Prop
  | blank : SameBut n .blank .blank
  | delimiter : SameBut n .delimiter .delimiter
  | text : SameBut n .text .text
  | declaration {k k' : Declaration} (h : k.outline n = k'.outline n) :
      SameBut n (.declaration k) (.declaration k')
  | entry {e e' : Entry} (h : e.outline = e'.outline) : SameBut n (.entry e) (.entry e')

private theorem LineKind.sameBut_ofLine (n : Nat) {l l' : Line} (hnumber : l.number = l'.number)
    (htext : l.text = l'.text) : SameBut n (ofLine l) (ofLine l') := by
  unfold ofLine Line.isBlank
  rw [htext]
  by_cases hblank : Text.isBlankText l'.text = true
  · rw [if_pos hblank, if_pos hblank]
    exact .blank
  by_cases hdelimiter : isDelimiterText l'.text = true
  · rw [if_neg hblank, if_neg hblank, if_pos hdelimiter, if_pos hdelimiter]
    exact .delimiter
  rw [if_neg hblank, if_neg hblank, if_neg hdelimiter, if_neg hdelimiter]
  cases field? l'.text with
  | none => exact .text
  | some f =>
    simp only [ofField]
    cases Keyword.ofKey? f.key with
    | some k => exact .declaration (by simp only [Declaration.outline, hnumber])
    | none => exact .entry (by simp only [Entry.outline, hnumber])

structure KindedLine.SameBut (n : Nat) (a b : KindedLine) : Prop where
  number : a.line.number = b.line.number
  kind : a.kind.SameBut n b.kind

private theorem KindedLine.forall₂_ofRows (n number start start' : Nat) (rs : List (List Char)) :
    List.Forall₂ (SameBut n) ((Line.ofRows number start rs).map ofLine)
      ((Line.ofRows number start' rs).map ofLine) := by
  induction rs generalizing number start start' with
  | nil => exact .nil
  | cons r rs ih => exact .cons ⟨rfl, LineKind.sameBut_ofLine n rfl rfl⟩ (ih ..)

variable {n : Nat}

private theorem KindedLine.alike_sameBut : Alike (SameBut n) := by
  constructor
  · rintro ⟨_, a⟩ ⟨_, b⟩ ⟨-, hkind⟩
    cases hkind <;> simp [isDelimiter]
  · rintro ⟨_, a⟩ ⟨_, b⟩ ⟨-, hkind⟩
    cases hkind <;> rfl
  · rintro ⟨_, a⟩ ⟨_, b⟩ ⟨-, hkind⟩
    cases hkind <;> simp [isBlank]

private theorem LineKind.SameBut.declaration? {x y : LineKind} (h : x.SameBut n y) :
    Option.Rel (fun k k' => k.outline n = k'.outline n) x.declaration? y.declaration? := by
  cases h with
  | declaration hk => exact .some hk
  | blank | delimiter | text | entry => exact .none

private theorem LineKind.SameBut.entry? {x y : LineKind} (h : x.SameBut n y) :
    Option.Rel (fun e e' => e.outline = e'.outline) x.entry? y.entry? := by
  cases h with
  | entry he => exact .some he
  | blank | delimiter | text | declaration => exact .none

private theorem Block.Corresponds.outline_eq {b b' : Block}
    (h : b.Corresponds (KindedLine.SameBut n) b') : b.outline n = b'.outline n := by
  obtain ⟨s, t, x, y, hst, hxy, rfl, rfl⟩ := h
  have hdeclarations := map_eq_map_of_forall₂ (fun _ _ hk => hk)
    (List.rel_filterMap (fun _ _ hab => hab.kind.declaration?) hst.body)
  have hentries := map_eq_map_of_forall₂ (fun _ _ he => he)
    (List.rel_filterMap (fun _ _ hab => hab.kind.entry?) hst.body)
  simp only [Block.outline, ofSection, KindedLine.asDelimiter, hst.head.number, hxy.number,
    hdeclarations, hentries]

private theorem Delimiter.Corresponds.line_eq {e e' : Delimiter}
    (h : e.Corresponds (KindedLine.SameBut n) e') : e.line = e'.line := by
  obtain ⟨a, b, hab, rfl, rfl⟩ := h
  exact hab.number

theorem Detection.outline_eq {d d' : Document}
    (h : List.Forall₂ (KindedLine.SameBut n) d.kindedLines d'.kindedLines) (r : DetectionRules) :
    (ofDocument r d).outline n = (ofDocument r d').outline n := by
  obtain ⟨hblocks, horphans, hrules⟩ := corresponds_ofDocument KindedLine.alike_sameBut r h
  rw [outline, outline, map_eq_map_of_forall₂ (fun _ _ hb => hb.outline_eq) hblocks,
    map_eq_map_of_forall₂ (fun _ _ he => he.line_eq) horphans,
    map_eq_map_of_forall₂ (fun _ _ he => he.line_eq) hrules]

/-! Where a candidate is put. -/

private theorem Text.isBlankText_of_subset {s t : List Char} (h : isBlankText s = true)
    (hts : t ⊆ s) : isBlankText t = true :=
  isBlankText_iff.mpr fun c hc => isBlankText_iff.mp h c (hts hc)

section

variable {l : Line} {k : Keyword} {indent rest : List Char} {o : Nat}

/-- After how many characters of the rest of a keyword line the replaced part starts and ends: only
blanks stand before it and after it. -/
private theorem LineKind.exists_bounds_of_replacedAt {colon : Nat}
    (hcolon : (declared l k indent rest).keywordExtent.stop + 1 = colon) (hlow : colon ≤ o)
    (hhigh : o ≤ colon + rest.length) :
    ∃ i j, i ≤ j ∧ j ≤ rest.length ∧ Text.isBlankText (rest.take i) = true ∧
      Text.isBlankText (rest.drop j) = true ∧
      (declared l k indent rest).replacedAt o = ⟨colon + i, colon + j⟩ := by
  by_cases hname : Text.trim rest = []
  · have hblank := Text.isBlankText_of_trim_eq_nil hname
    refine ⟨o - colon, o - colon, Nat.le_refl _, by omega,
      Text.isBlankText_of_subset hblank (List.take_subset _ _),
      Text.isBlankText_of_subset hblank (List.drop_subset _ _), ?_⟩
    rw [Declaration.replacedAt_of_name_eq_nil hname, Extent.mk.injEq]
    omega
  · have hstart : (declared l k indent rest).nameExtent.start =
      colon + (rest.takeWhile Text.isBlank).length := by rw [← hcolon]; rfl
    have hstop : (declared l k indent rest).nameExtent.stop =
      colon + (rest.takeWhile Text.isBlank).length + (Text.trim rest).length := by rw [← hcolon]; rfl
    rw [Declaration.replacedAt_of_name_ne_nil hname, hstart, hstop]
    obtain ⟨trail, hrest, htrail⟩ := Text.exists_trail rest
    have hgap := Text.isBlankText_takeWhile rest
    generalize Text.trim rest = name at hrest
    generalize rest.takeWhile Text.isBlank = gap at hrest hgap
    subst hrest
    -- The cursor may stand in the gap, in the name or after it, hence the least and the greatest.
    refine ⟨min (o - colon) gap.length, max (gap.length + name.length) (o - colon), by omega, ?_,
      ?_, ?_, ?_⟩
    · simp only [List.length_append] at hhigh ⊢
      omega
    · rw [List.take_append_of_le_length (Nat.min_le_right _ _)]
      exact Text.isBlankText_of_subset hgap (List.take_subset _ _)
    · refine Text.isBlankText_of_subset htrail fun c hc => ?_
      have hbeyond : (gap ++ name).length ≤ max (gap.length + name.length) (o - colon) := by
        rw [List.length_append]
        exact Nat.le_max_left _ _
      rw [← List.append_assoc, List.drop_append, List.drop_eq_nil_of_le hbeyond,
        List.nil_append] at hc
      exact List.mem_of_mem_drop hc
    · rw [Extent.mk.injEq]
      omega

private theorem LineKind.exists_parts_of_replacedAt {colon : Nat}
    (hcolon : (declared l k indent rest).keywordExtent.stop + 1 = colon) (hlow : colon ≤ o)
    (hhigh : o ≤ colon + rest.length) :
    ∃ lead old trail, rest = lead ++ (old ++ trail) ∧ Text.isBlankText lead = true ∧
      Text.isBlankText trail = true ∧ (declared l k indent rest).replacedAt o =
        ⟨colon + lead.length, colon + lead.length + old.length⟩ := by
  obtain ⟨i, j, hij, hj, hlead, htrail, hreplaced⟩ := exists_bounds_of_replacedAt hcolon hlow hhigh
  refine ⟨rest.take i, (rest.take j).drop i, rest.drop j, ?_, hlead, htrail, ?_⟩
  · have htake : (rest.take j).take i = rest.take i := by rw [List.take_take, Nat.min_eq_left hij]
    rw [← List.append_assoc, ← htake, List.take_append_drop, List.take_append_drop]
  · rw [hreplaced, Extent.mk.injEq]
    simp only [List.length_drop, List.length_take]
    omega

end

namespace CompletionContext

/-- The keyword line of a context, cut at what a candidate replaces. -/
structure Place (d : Document) (x : CompletionContext) where
  cut : Text.Cut
  indent : List Char
  /-- Blanks between the colon and what is replaced. -/
  lead : List Char
  /-- What is replaced. -/
  old : List Char
  /-- Blanks from there to the end of the line. -/
  trail : List Char
  text : d.text = cut.text
  number : x.line = cut.asLine.number
  line : cut.line = indent ++ (x.keyword.word ++ ':' :: (lead ++ (old ++ trail)))
  indent_blank : Text.isBlankText indent = true
  lead_blank : Text.isBlankText lead = true
  trail_blank : Text.isBlankText trail = true
  start : x.replaced.start = (cut.before ++ (indent ++ (x.keyword.word ++ ':' :: lead))).length
  stop : x.replaced.stop = x.replaced.start + old.length

private theorem nonempty_place {d : Document} {cursor : Nat} {x : CompletionContext}
    (h : atCursor? d cursor = some x) : Nonempty (Place d x) := by
  rw [atCursor?_eq_classified?_backOverReturn] at h
  simp only [classified?, Option.bind_eq_bind, Option.bind_eq_some_iff] at h
  obtain ⟨l, hl, k, hk, hx⟩ := h
  have hback : d.backOverReturn cursor ≤ d.length := by
    have hle := d.clamp_le_length cursor
    simp only [Document.backOverReturn]
    split <;> omega
  obtain ⟨c, n, htext, rfl, hn, ho⟩ := Document.exists_cut_of_lineHolding? hback hl
  obtain ⟨kw, indent, rest, hindent, hline, rfl⟩ :=
    LineKind.ofLine_eq_declaration_iff.mp (LineKind.declaration?_eq_some_iff.mp hk)
  rw [Declaration.contextAt?, Option.ite_none_right_eq_some, Option.some.injEq] at hx
  obtain ⟨hlow, rfl⟩ := hx
  have hline : c.line = indent ++ (kw.word ++ ':' :: rest) := hline
  have hhigh : d.backOverReturn cursor ≤
      (LineKind.declared c.asLine kw indent rest).keywordExtent.stop + 1 + rest.length := by
    rw [ho]
    rw [hline] at hn
    simp only [List.length_append, List.length_cons] at hn
    simp only [LineKind.declared, Text.Cut.asLine]
    omega
  obtain ⟨lead, old, trail, hrest, hlead, htrail, hreplaced⟩ :=
    LineKind.exists_parts_of_replacedAt rfl hlow hhigh
  refine ⟨⟨c, indent, lead, old, trail, htext, rfl, ?_, hindent, hlead, htrail, ?_, ?_⟩⟩
  · rw [hline, hrest]
    rfl
  · simp only [hreplaced]
    simp only [LineKind.declared, Text.Cut.asLine, List.length_append, List.length_cons]
    omega
  · simp only [hreplaced]

namespace Place

variable {d : Document} {x : CompletionContext} (p : Place d x) {label : List Char}

private theorem before_eq :
    d.text = (p.cut.before ++ (p.indent ++ (x.keyword.word ++ ':' :: p.lead))) ++
      (p.old ++ (p.trail ++ p.cut.lineBreak ++ p.cut.after)) := by
  rw [p.text, Text.Cut.text, p.line]
  simp only [List.append_assoc, List.cons_append]

private theorem stop_le_length (p : Place d x) : x.replaced.stop ≤ d.length := by
  have hlen := congrArg List.length p.before_eq
  rw [List.length_append, ← p.start, List.length_append] at hlen
  rw [p.stop, Document.length]
  omega

def renamed (label : List Char) : List Char :=
  p.indent ++ (x.keyword.word ++ ':' :: (p.lead ++ (label ++ p.trail)))

private theorem not_mem_renamed (h : Text.IsLabel label) : '\n' ∉ p.renamed label := by
  have hclean := p.cut.clean
  have hlabel := h.clean
  rw [p.line] at hclean
  simp only [List.mem_append, List.mem_cons, not_or, renamed] at hclean ⊢
  tauto

private theorem getLast?_renamed (h : Text.IsLabel label)
    (hlast : p.cut.line.getLast? ≠ some '\r') : (p.renamed label).getLast? ≠ some '\r' := by
  intro hreturn
  rw [p.line] at hlast
  simp only [renamed, List.getLast?_append, List.getLast?_cons] at hlast hreturn
  cases htrail : p.trail.getLast? with
  | some c =>
    simp only [htrail, Option.some_or, Option.getD_some] at hlast hreturn
    exact hlast hreturn
  | none =>
    have hlabel := List.getLast?_eq_some_getLast h.ne_nil
    have hblank := h.last _ hlabel
    simp only [htrail, hlabel, Option.none_or, Option.some_or, Option.getD_some,
      Option.some.injEq] at hreturn
    rw [hreturn] at hblank
    exact absurd hblank (by decide)

def renamedCut (h : Text.IsLabel label) : Text.Cut where
  before := p.cut.before
  line := p.renamed label
  lineBreak := p.cut.lineBreak
  after := p.cut.after
  endsRow := p.cut.endsRow
  clean := p.not_mem_renamed h
  broken := by
    rcases p.cut.broken with ⟨hbreak, -, hafter⟩ | ⟨hbreak, hlast⟩ | hbreak
    · exact .inl ⟨hbreak, by simp [renamed], hafter⟩
    · exact .inr (.inl ⟨hbreak, p.getLast?_renamed h hlast⟩)
    · exact .inr (.inr hbreak)

private theorem text_replace (h : Text.IsLabel label) :
    (d.replace x.replaced label).text = (p.renamedCut h).text := by
  have hstop : x.replaced.stop =
      (p.cut.before ++ (p.indent ++ (x.keyword.word ++ ':' :: p.lead)) ++ p.old).length := by
    rw [p.stop, p.start, ← List.length_append]
  have htake : d.text.take x.replaced.start =
      p.cut.before ++ (p.indent ++ (x.keyword.word ++ ':' :: p.lead)) := by
    rw [p.before_eq, p.start, List.take_left]
  have hdrop : d.text.drop x.replaced.stop = p.trail ++ p.cut.lineBreak ++ p.cut.after := by
    rw [p.before_eq, ← List.append_assoc, hstop, List.drop_left]
  simp only [Document.replace, htake, hdrop, Text.Cut.text, renamedCut, renamed, List.append_assoc,
    List.cons_append]

private theorem ofLine_renamedCut (h : Text.IsLabel label) :
    LineKind.ofLine (p.renamedCut h).asLine =
      .declaration (LineKind.declared (p.renamedCut h).asLine x.keyword p.indent
        (p.lead ++ (label ++ p.trail))) :=
  LineKind.ofLine_eq_declared p.indent_blank rfl

private theorem forall₂_sameBut (p : Place d x) (h : Text.IsLabel label) :
    List.Forall₂ (KindedLine.SameBut x.line) d.kindedLines
      (d.replace x.replaced label).kindedLines := by
  have hline : KindedLine.SameBut x.line (.ofLine p.cut.asLine)
      (.ofLine (p.renamedCut h).asLine) := by
    refine ⟨rfl, ?_⟩
    have hold := LineKind.ofLine_eq_declared (l := p.cut.asLine) p.indent_blank p.line
    simp only [KindedLine.ofLine, hold, p.ofLine_renamedCut h]
    have hnumber : (p.renamedCut h).asLine.number = p.cut.asLine.number := rfl
    refine .declaration ?_
    simp only [Declaration.outline, LineKind.declared, p.number, hnumber, ↓reduceIte]
  simp only [Document.kindedLines, Document.lines_of_cut p.text,
    Document.lines_of_cut (p.text_replace h), List.map_append, List.map_cons]
  exact List.rel_append (KindedLine.forall₂_ofRows ..) (.cons hline (KindedLine.forall₂_ofRows ..))

private theorem lineCount_replace (p : Place d x) (h : Text.IsLabel label) :
    (d.replace x.replaced label).lineCount = d.lineCount := by
  rw [Document.lineCount, Document.lineCount, p.text_replace h, p.text, Text.Cut.rows_text,
    Text.Cut.rows_text]
  simp only [List.length_append, List.length_cons]
  rfl

private theorem line?_replace (h : Text.IsLabel label) :
    (d.replace x.replaced label).line? x.line = some (p.renamedCut h).asLine := by
  rw [p.number]
  exact Document.line?_of_cut (p.text_replace h)

end Place

end CompletionContext

/-! The names that completion offers can be put there. -/

private theorem Declaration.isLabel_name {r : DetectionRules} {d : Document} {b : Block}
    (hb : b ∈ (Detection.ofDocument r d).blocks) {k : Declaration} (hk : k ∈ b.declarations)
    (hne : k.name ≠ []) : Text.IsLabel k.name := by
  obtain ⟨i, s, t, hs, -, -, rfl⟩ := Block.exists_sections hb
  obtain ⟨l, hl, hkind⟩ := List.mem_filterMap.mp hk
  obtain ⟨hline, -⟩ := (Document.mem_body_iff hs).mp hl
  obtain ⟨m, hm, rfl⟩ := List.mem_map.mp hline
  obtain ⟨kw, indent, rest, -, htext, rfl⟩ :=
    LineKind.ofLine_eq_declaration_iff.mp (LineKind.declaration?_eq_some_iff.mp hkind)
  have hclean : '\n' ∉ m.text := by
    obtain ⟨j, hj⟩ := List.mem_iff_getElem?.mp hm
    rw [Document.lines, Line.ofRows_getElem?] at hj
    obtain ⟨row, hrow, rfl⟩ := Option.map_eq_some_iff.mp hj
    exact Text.not_mem_withoutBreak (List.mem_of_getElem? hrow)
  refine ⟨hne, fun hmem => hclean ?_, Text.head?_trim rest, Text.getLast?_trimEnd _⟩
  obtain ⟨trail, hrest, -⟩ := Text.exists_trail rest
  rw [htext, hrest]
  simp [show '\n' ∈ Text.trim rest from hmem]

namespace Candidate

private theorem isLabel_of_mem_ofScopes {r : DetectionRules} {d : Document} {line : Nat}
    {c : Candidate} (h : c ∈ ofScopes (Detection.ofDocument r d).blocks line) :
    Text.IsLabel c.label := by
  obtain ⟨k, hk, hc⟩ := List.mem_filterMap.mp (mem_of_mem_arrange h)
  obtain ⟨b, hb, hkb⟩ := List.mem_flatMap.mp hk
  rw [Option.ite_none_right_eq_some, Option.some.injEq] at hc
  obtain ⟨hoffered, rfl⟩ := hc
  simp only [Bool.and_eq_true, Bool.not_eq_true', List.isEmpty_eq_false_iff] at hoffered
  exact Declaration.isLabel_name hb hkb hoffered.2

private theorem kind_of_mem_ofCatalog {catalog : Catalog} {c : Candidate}
    (h : c ∈ ofCatalog catalog) : c.kind = .template := by
  obtain ⟨t, -, hc⟩ := List.mem_filterMap.mp (mem_of_mem_arrange h)
  rw [Option.ite_none_left_eq_some, Option.some.injEq] at hc
  obtain ⟨-, rfl⟩ := hc
  rfl

private theorem isLabel_of_mem_atCursor {r : DetectionRules} {d : Document} {cursor : Nat}
    {catalog : Catalog} {c : Candidate}
    (h : c ∈ atCursor d cursor (Detection.ofDocument r d).blocks catalog)
    (hkind : c.kind = .scope) : Text.IsLabel c.label := by
  unfold atCursor at h
  cases hx : CompletionContext.atCursor? d cursor with
  | none => simp [hx] at h
  | some x =>
    simp only [hx, ofContext] at h
    cases hk : x.keyword with
    | scope =>
      rw [hk] at h
      exact isLabel_of_mem_ofScopes h
    | quill =>
      rw [hk] at h
      rw [kind_of_mem_ofCatalog h] at hkind
      cases hkind

end Candidate

/-- Accepting a label where completion is offered names the keyword line and changes nothing else:
the number of lines, the delimiters of each role, and the keywords and entries stay. The scopes that
completion offers are such labels. -/
theorem CompletionContext.accept_names_line {d : Document} {cursor : Nat} {x : CompletionContext}
    (h : atCursor? d cursor = some x) :
    (∀ r catalog, ∀ c ∈ Candidate.atCursor d cursor (Detection.ofDocument r d).blocks catalog,
      c.kind = .scope → Text.IsLabel c.label) ∧
    (x.replaced.start ≤ x.replaced.stop ∧ x.replaced.stop ≤ d.length) ∧
    ∀ label, Text.IsLabel label →
      (d.replace x.replaced label).lineCount = d.lineCount ∧
      (∃ l k, (d.replace x.replaced label).line? x.line = some l ∧
        LineKind.ofLine l = .declaration k ∧ k.keyword = x.keyword ∧ k.name = label) ∧
      ∀ r, (Detection.ofDocument r (d.replace x.replaced label)).outline x.line =
        (Detection.ofDocument r d).outline x.line := by
  obtain ⟨p⟩ := nonempty_place h
  refine ⟨fun r catalog c hc hkind => Candidate.isLabel_of_mem_atCursor hc hkind,
    ⟨by rw [p.stop]; exact Nat.le_add_right _ _, p.stop_le_length⟩, fun label hlabel => ?_⟩
  refine ⟨p.lineCount_replace hlabel, ?_, fun r => ?_⟩
  · refine ⟨_, _, p.line?_replace hlabel, p.ofLine_renamedCut hlabel, rfl, ?_⟩
    exact Text.trim_eq_of_isLabel hlabel p.lead_blank p.trail_blank
  · exact (Detection.outline_eq (p.forall₂_sameBut hlabel) r).symm

theorem CompletionContext.accept_names_line_offered :
    let d : Document := .ofText "---\nSCOPE: a b\nSCOPE: \r\n---\n".toList
    let x : CompletionContext := ⟨.scope, 3, [], ⟨22, 22⟩⟩
    atCursor? d 22 = some x ∧
      ⟨"a b".toList, none, .scope⟩ ∈ Candidate.atCursor d 22 (Detection.ofDocument {} d).blocks [] ∧
      (d.replace x.replaced "a b".toList).lineCount = d.lineCount ∧
      (∃ l k, (d.replace x.replaced "a b".toList).line? x.line = some l ∧
        LineKind.ofLine l = .declaration k ∧ k.keyword = x.keyword ∧ k.name = "a b".toList) ∧
      ∀ r, (Detection.ofDocument r (d.replace x.replaced "a b".toList)).outline x.line =
        (Detection.ofDocument r d).outline x.line := by
  intro d x
  have hx : atCursor? d 22 = some x := by decide
  have hoffered : ⟨"a b".toList, none, .scope⟩ ∈
      Candidate.atCursor d 22 (Detection.ofDocument {} d).blocks [] := by decide +kernel
  have haccept := accept_names_line hx
  exact ⟨hx, hoffered, haccept.2.2 _ (haccept.1 {} [] _ hoffered rfl)⟩

end MetaBlocks
