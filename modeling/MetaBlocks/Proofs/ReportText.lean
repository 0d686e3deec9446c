import MetaBlocks.Proofs.Blocks
import MetaBlocks.Proofs.Lookups
import MetaBlocks.Proofs.Quoting
import MetaBlocks.Proofs.Rendering
import MetaBlocks.Report.Text

/-!
The text of a report can be read back. The lines of a report are told apart by how they are
indented, and in a block a declaration by the blank after its keyword from an entry by its colon;
inside a line every number and every quoted text tells where it ends.
-/

set_option autoImplicit false
set_option relaxedAutoImplicit false

namespace MetaBlocks

open Text

/-- What a report says about a block: its lines, and its declarations and entries without their
offsets. -/
structure Block.Facts where
  opening : Nat
  closing : Nat
  declarations : List (Keyword × List Char × Nat)
  entries : List (List Char × List Char × ValueType × Nat)
  deriving DecidableEq, Repr

def Declaration.facts (k : Declaration) : Keyword × List Char × Nat := (k.keyword, k.name, k.line)

def Entry.facts (e : Entry) : List Char × List Char × ValueType × Nat :=
  (e.key, e.value, e.type, e.line)

def Block.facts (b : Block) : Facts :=
  ⟨b.opening.line, b.closing.line, b.declarations.map (·.facts), b.entries.map (·.facts)⟩

structure Report.Facts where
  lineCount : Nat
  length : Nat
  viewport : Extent
  spans : List Span
  rules : List Nat
  orphans : List Nat
  blocks : List Block.Facts
  deriving DecidableEq, Repr

def Report.facts (r : Report) : Facts where
  lineCount := r.lineCount
  length := r.length
  viewport := r.viewport
  spans := r.spans
  rules := r.detection.rules.map (·.line)
  orphans := r.detection.orphans.map (·.line)
  blocks := r.detection.blocks.map (·.facts)

section Lists

variable {α β γ : Type}

private theorem head?_cons_of {test : α → Bool} {x : α} (h : test x = false) (s : List α) :
    ∀ y ∈ (x :: s).head?, test y = false := by
  simpa using h

private theorem map_eq_of_map_eq {f : α → β} {g : α → γ} {xs ys : List α}
    (hfg : ∀ x ∈ xs, ∀ y ∈ ys, f x = f y → g x = g y) (h : xs.map f = ys.map f) :
    xs.map g = ys.map g := by
  induction xs generalizing ys with
  | nil =>
    rw [List.map_nil, List.nil_eq, List.map_eq_nil_iff] at h
    rw [h, List.map_nil]
  | cons x xs ih =>
    cases ys with
    | nil => cases h
    | cons y ys =>
      obtain ⟨hhead, htail⟩ := List.cons.inj h
      rw [List.map_cons, List.map_cons, hfg x List.mem_cons_self y List.mem_cons_self hhead,
        ih (fun a ha b hb => hfg a (List.mem_cons_of_mem x ha) b (List.mem_cons_of_mem y hb)) htail]

end Lists

private theorem Text.range_append_inj {a b a' b' : Nat} {s t : List Char}
    (hs : ∀ c ∈ s.head?, c.isDigit = false) (ht : ∀ c ∈ t.head?, c.isDigit = false)
    (h : range a b ++ s = range a' b' ++ t) : a = a' ∧ b = b' ∧ s = t := by
  simp only [range, List.append_assoc, List.cons_append, List.nil_append] at h
  obtain ⟨hstart, hdots⟩ := decimal_append_inj (head?_cons_of (by decide) _)
    (head?_cons_of (by decide) _) h
  obtain ⟨hstop, hrest⟩ := decimal_append_inj hs ht (List.cons.inj (List.cons.inj hdots).2).2
  exact ⟨hstart, hstop, hrest⟩

private theorem Text.lines_of_join {xs ys : List (List Char)} (hx : ∀ l ∈ xs, '\n' ∉ l)
    (hy : ∀ l ∈ ys, '\n' ∉ l)
    (h : xs.flatMap (fun l => l ++ ['\n']) = ys.flatMap fun l => l ++ ['\n']) : xs = ys := by
  have hrows := congrArg rows h
  rw [rows_flatMap_feed hx, rows_flatMap_feed hy] at hrows
  exact List.map_injective_iff.mpr (fun a b hab => List.append_cancel_right hab) hrows

private theorem SpanKind.name_injective {j k : SpanKind} (h : j.name = k.name) : j = k := by
  have hfind (k : SpanKind) : SpanKind.all.find? (fun i => i.name = k.name) = some k := by
    cases k <;> rfl
  have hj := hfind j
  rw [h, hfind k] at hj
  exact (Option.some.inj hj).symm

private theorem ValueType.label_append_inj {a b : ValueType} {s t : List Char}
    (h : a.label ++ ']' :: s = b.label ++ ']' :: t) : a = b ∧ s = t := by
  have hclosed (k : ValueType) : ']' ∉ k.label := by cases k <;> decide
  have hclean (k : ValueType) : ∀ c ∈ k.label, (c != ']') = true := by
    intro c hc
    exact bne_iff_ne.mpr fun heq => hclosed k (heq ▸ hc)
  obtain ⟨hlabel, hrest⟩ := append_inj_of_run (hclean a) (hclean b) (head?_cons_of (by decide) s)
    (head?_cons_of (by decide) t) h
  refine ⟨?_, (List.cons.inj hrest).2⟩
  cases a <;> cases b <;> first | rfl | exact absurd hlabel (by decide)

namespace Report

private theorem lineNote_injective {m n : Nat} (h : lineNote m = lineNote n) : m = n := by
  unfold lineNote at h
  rw [List.append_assoc, List.append_assoc] at h
  have hnumber := List.append_cancel_left h
  have hclose : ∀ c ∈ [')'].head?, c.isDigit = false := head?_cons_of (by decide) []
  exact (decimal_append_inj hclose hclose hnumber).1

private theorem declarationLine_inj {k k' : Declaration}
    (h : declarationLine k = declarationLine k') : k.facts = k'.facts := by
  unfold declarationLine at h
  simp only [List.append_assoc, List.cons_append] at h
  have hword (k : Keyword) : k.word.length = 5 := by cases k <;> rfl
  obtain ⟨hkeyword, hrest⟩ := List.append_inj (List.append_cancel_left h) (by rw [hword, hword])
  obtain ⟨hname, hnote⟩ := quote_append_inj (List.cons.inj hrest).2
  have hsame : k.keyword = k'.keyword := by
    revert hkeyword
    cases k.keyword <;> cases k'.keyword <;> decide
  rw [Declaration.facts, Declaration.facts, hsame, hname, lineNote_injective hnote]

private theorem entryLine_inj {e e' : Entry} (he : ∀ c ∈ e.key, LineKind.isKeyChar c = true)
    (he' : ∀ c ∈ e'.key, LineKind.isKeyChar c = true) (h : entryLine e = entryLine e') :
    e.facts = e'.facts := by
  unfold entryLine at h
  simp only [List.append_assoc, List.cons_append] at h
  obtain ⟨hkey, hcolon⟩ := append_inj_of_run he he' (head?_cons_of (by decide) _)
    (head?_cons_of (by decide) _) (List.append_cancel_left h)
  obtain ⟨hvalue, hrest⟩ := quote_append_inj (List.cons.inj (List.cons.inj hcolon).2).2
  obtain ⟨htype, hnote⟩ := ValueType.label_append_inj (List.append_cancel_left hrest)
  rw [Entry.facts, Entry.facts, hkey, hvalue, htype, lineNote_injective hnote]

private theorem spanLine_injective {p q : Span} (h : spanLine p = spanLine q) : p = q := by
  unfold spanLine at h
  simp only [padRight, List.append_assoc, List.cons_append] at h
  have hblank (n : Nat) (s : List Char) :
      ∀ c ∈ (List.replicate n ' ' ++ ' ' :: s).head?, c.isDigit = false := by
    cases n with
    | zero => exact head?_cons_of (by decide) _
    | succ n => exact head?_cons_of (by decide) _
  obtain ⟨hstart, hstop, hrest⟩ := range_append_inj (hblank _ _) (hblank _ _)
    (List.append_cancel_left h)
  -- the same numbers leave the same room
  have hextent : p.extent = q.extent := by
    obtain ⟨⟨start, stop⟩, kind⟩ := p
    obtain rfl : start = q.extent.start := hstart
    obtain rfl : stop = q.extent.stop := hstop
    rfl
  rw [hextent] at hrest
  have hlabel (s : SpanScope) : s.label.length = 4 := by cases s <;> rfl
  obtain ⟨-, hname⟩ := List.append_inj (List.cons.inj (List.append_cancel_left hrest)).2
    (by rw [hlabel, hlabel])
  have hkind := SpanKind.name_injective (List.cons.inj hname).2
  obtain ⟨extent, kind⟩ := p
  obtain rfl : extent = q.extent := hextent
  obtain rfl : kind = q.kind := hkind
  rfl

def commaRun (ns : List Nat) : List Char := ns.flatMap fun n => ',' :: ' ' :: decimal n

private theorem head?_commaRun (ns : List Nat) : ∀ c ∈ (commaRun ns).head?, c.isDigit = false := by
  cases ns with
  | nil => simp [commaRun]
  | cons n ns => exact head?_cons_of (by decide) _

private theorem commaRun_injective {ms ns : List Nat} (h : commaRun ms = commaRun ns) :
    ms = ns := by
  induction ms generalizing ns with
  | nil =>
    cases ns with
    | nil => rfl
    | cons n ns => cases h
  | cons m ms ih =>
    cases ns with
    | nil => cases h
    | cons n ns =>
      have hrest : decimal m ++ commaRun ms = decimal n ++ commaRun ns :=
        (List.cons.inj (List.cons.inj h).2).2
      obtain ⟨rfl, htail⟩ := decimal_append_inj (head?_commaRun ms) (head?_commaRun ns) hrest
      rw [ih htail]

private theorem intercalate_decimal (n : Nat) (ns : List Nat) :
    [',', ' '].intercalate ((n :: ns).map decimal) = decimal n ++ commaRun ns := by
  induction ns generalizing n with
  | nil => simp [commaRun]
  | cons m ns ih =>
    have hstep : [',', ' '].intercalate ((n :: m :: ns).map decimal) =
        decimal n ++ ([',', ' '] ++ [',', ' '].intercalate ((m :: ns).map decimal)) := by
      simp [List.intercalate_cons_cons]
    rw [hstep, ih]
    simp [commaRun]

private theorem lineNumbers_cons (x : Delimiter) (xs : List Delimiter) :
    lineNumbers (x :: xs) = decimal x.line ++ commaRun (xs.map (·.line)) := by
  have hmap : (x :: xs).map (fun d => decimal d.line) =
      (x.line :: xs.map (·.line)).map decimal := by
    simp
  have hjoin : lineNumbers (x :: xs) =
      [',', ' '].intercalate ((x :: xs).map fun d => decimal d.line) := rfl
  rw [hjoin, hmap, intercalate_decimal]

private theorem lineNumbers_cons_ne_none (x : Delimiter) (xs : List Delimiter) :
    lineNumbers (x :: xs) ≠ "none".toList := by
  intro h
  rw [lineNumbers_cons] at h
  cases hdigits : decimal x.line with
  | nil => exact decimal_ne_nil _ hdigits
  | cons c s =>
    rw [hdigits] at h
    obtain rfl : c = 'n' := (List.cons.inj h).1
    exact absurd (isDigit_of_mem_decimal (n := x.line) (by rw [hdigits]; exact List.mem_cons_self))
      (by decide)

private theorem lineNumbers_inj {xs ys : List Delimiter} (h : lineNumbers xs = lineNumbers ys) :
    xs.map (·.line) = ys.map (·.line) := by
  cases xs with
  | nil =>
    cases ys with
    | nil => rfl
    | cons y ys => exact absurd h.symm (lineNumbers_cons_ne_none y ys)
  | cons x xs =>
    cases ys with
    | nil => exact absurd h (lineNumbers_cons_ne_none x xs)
    | cons y ys =>
      rw [lineNumbers_cons, lineNumbers_cons] at h
      obtain ⟨hfirst, hrest⟩ := decimal_append_inj (head?_commaRun _) (head?_commaRun _) h
      rw [List.map_cons, List.map_cons, hfirst, commaRun_injective hrest]

def headerLine (b : Block) : List Char :=
  "  lines ".toList ++ decimal b.opening.line ++ '-' :: decimal b.closing.line

def innerLines (b : Block) : List (List Char) :=
  b.declarations.map declarationLine ++ b.entries.map entryLine

private theorem blockLines_eq (b : Block) : blockLines b = headerLine b :: innerLines b := rfl

private theorem headerLine_inj {b b' : Block} (h : headerLine b = headerLine b') :
    b.opening.line = b'.opening.line ∧ b.closing.line = b'.closing.line := by
  unfold headerLine at h
  rw [List.append_assoc, List.append_assoc] at h
  obtain ⟨hopening, hrest⟩ := decimal_append_inj (head?_cons_of (by decide) _)
    (head?_cons_of (by decide) _) (List.append_cancel_left h)
  exact ⟨hopening, decimal_injective (List.cons.inj hrest).2⟩

/-- Four blanks in front tell the lines inside a block. -/
def isInner (l : List Char) : Bool := l[2]? == some ' '

private theorem exists_of_mem_innerLines {b : Block} {l : List Char} (h : l ∈ innerLines b) :
    ∃ t, l = "    ".toList ++ t := by
  rcases List.mem_append.mp h with h | h
  · obtain ⟨k, -, rfl⟩ := List.mem_map.mp h
    unfold declarationLine
    simp only [List.append_assoc]
    exact ⟨_, rfl⟩
  · obtain ⟨e, -, rfl⟩ := List.mem_map.mp h
    unfold entryLine
    simp only [List.append_assoc]
    exact ⟨_, rfl⟩

private theorem isInner_of_mem {b : Block} {l : List Char} (h : l ∈ innerLines b) :
    isInner l = true := by
  obtain ⟨t, rfl⟩ := exists_of_mem_innerLines h
  rfl

private theorem isInner_head?_blocks (bs : List Block) :
    ∀ l ∈ (bs.flatMap blockLines).head?, isInner l = false := by
  cases bs with
  | nil => simp
  | cons b bs =>
    rw [List.flatMap_cons, blockLines_eq]
    exact head?_cons_of rfl _

/-- A blank behind the first word tells declarations from entries. -/
def isDeclared (l : List Char) : Bool :=
  ((l.drop 4).dropWhile LineKind.isKeyChar).head? == some ' '

private theorem isDeclared_declarationLine (k : Declaration) :
    isDeclared (declarationLine k) = true := by
  have hdrop : (declarationLine k).drop 4 =
      k.keyword.word ++ ' ' :: (quote k.name ++ lineNote k.line) := by
    unfold declarationLine
    simp only [List.append_assoc, List.cons_append]
    rfl
  rw [isDeclared, hdrop,
    List.dropWhile_append_of_pos fun c hc => LineKind.isKeyChar_of_mem_word hc,
    List.dropWhile_cons_of_neg (by decide), List.head?_cons, beq_self_eq_true]

private theorem isDeclared_entryLine {e : Entry} (he : ∀ c ∈ e.key, LineKind.isKeyChar c = true) :
    isDeclared (entryLine e) = false := by
  have hdrop : (entryLine e).drop 4 = e.key ++ ':' :: ' ' ::
      (quote e.value ++ (" [".toList ++ (e.type.label ++ ']' :: lineNote e.line))) := by
    unfold entryLine
    simp only [List.append_assoc, List.cons_append]
    rfl
  rw [isDeclared, hdrop, List.dropWhile_append_of_pos he, List.dropWhile_cons_of_neg (by decide),
    List.head?_cons]
  decide

def Keyed (b : Block) : Prop := ∀ e ∈ b.entries, ∀ c ∈ e.key, LineKind.isKeyChar c = true

private theorem innerLines_inj {b b' : Block} (hb : Keyed b) (hb' : Keyed b')
    (h : innerLines b = innerLines b') :
    b.declarations.map (·.facts) = b'.declarations.map (·.facts) ∧
      b.entries.map (·.facts) = b'.entries.map (·.facts) := by
  have hdeclared (b : Block) : ∀ l ∈ b.declarations.map declarationLine, isDeclared l = true := by
    intro l hl
    obtain ⟨k, -, rfl⟩ := List.mem_map.mp hl
    exact isDeclared_declarationLine k
  have hentry {b : Block} (hb : Keyed b) :
      ∀ l ∈ (b.entries.map entryLine).head?, isDeclared l = false := by
    intro l hl
    obtain ⟨e, he, rfl⟩ := List.mem_map.mp (List.mem_of_mem_head? hl)
    exact isDeclared_entryLine (hb e he)
  obtain ⟨hdeclarations, hentries⟩ :=
    append_inj_of_run (hdeclared b) (hdeclared b') (hentry hb) (hentry hb') h
  exact ⟨map_eq_of_map_eq (fun k _ k' _ hline => declarationLine_inj hline) hdeclarations,
    map_eq_of_map_eq (fun e he e' he' hline => entryLine_inj (hb e he) (hb' e' he') hline) hentries⟩

private theorem blockLines_inj {bs bs' : List Block} (hbs : ∀ b ∈ bs, Keyed b)
    (hbs' : ∀ b ∈ bs', Keyed b) (h : bs.flatMap blockLines = bs'.flatMap blockLines) :
    bs.map (·.facts) = bs'.map (·.facts) := by
  induction bs generalizing bs' with
  | nil =>
    cases bs' with
    | nil => rfl
    | cons b' bs' => cases h
  | cons b bs ih =>
    cases bs' with
    | nil => cases h
    | cons b' bs' =>
      rw [List.flatMap_cons, List.flatMap_cons, blockLines_eq, blockLines_eq] at h
      obtain ⟨hheader, hlines⟩ := List.cons.inj h
      -- what is indented further ends where the next block starts
      obtain ⟨hinner, hrest⟩ := append_inj_of_run (fun _ hl => isInner_of_mem hl)
        (fun _ hl => isInner_of_mem hl) (isInner_head?_blocks bs) (isInner_head?_blocks bs') hlines
      obtain ⟨hopening, hclosing⟩ := headerLine_inj hheader
      obtain ⟨hdeclarations, hentries⟩ :=
        innerLines_inj (hbs b List.mem_cons_self) (hbs' b' List.mem_cons_self) hinner
      have htail := ih (fun x hx => hbs x (List.mem_cons_of_mem b hx))
        (fun x hx => hbs' x (List.mem_cons_of_mem b' hx)) hrest
      rw [List.map_cons, List.map_cons, htail, Block.facts, Block.facts, hopening, hclosing,
        hdeclarations, hentries]

section Feeds

private theorem feed_not_mem_decimal (n : Nat) : '\n' ∉ decimal n := by
  intro h
  exact absurd (isDigit_of_mem_decimal h) (by decide)

private theorem feed_not_mem_range (a b : Nat) : '\n' ∉ range a b :=
  List.not_mem_append (List.not_mem_append (feed_not_mem_decimal a) (by decide))
    (feed_not_mem_decimal b)

private theorem feed_not_mem_lineNote (n : Nat) : '\n' ∉ lineNote n :=
  List.not_mem_append (List.not_mem_append (by decide) (feed_not_mem_decimal n)) (by decide)

private theorem feed_not_mem_declarationLine (k : Declaration) : '\n' ∉ declarationLine k := by
  have hword : '\n' ∉ k.keyword.word := by cases k.keyword <;> decide
  refine List.not_mem_append (List.not_mem_append (List.not_mem_append (by decide) hword) ?_)
    (feed_not_mem_lineNote k.line)
  exact List.not_mem_cons_of_ne_of_not_mem (by decide) (feed_not_mem_quote k.name)

private theorem feed_not_mem_entryLine {e : Entry} (he : ∀ c ∈ e.key, LineKind.isKeyChar c = true) :
    '\n' ∉ entryLine e := by
  have hkey : '\n' ∉ e.key := fun hmem => absurd (he _ hmem) (by decide)
  have hvalue : '\n' ∉ ':' :: ' ' :: quote e.value :=
    List.not_mem_cons_of_ne_of_not_mem (by decide)
      (List.not_mem_cons_of_ne_of_not_mem (by decide) (feed_not_mem_quote e.value))
  have htype : '\n' ∉ e.type.label := by cases e.type <;> decide
  have hnote : '\n' ∉ ']' :: lineNote e.line :=
    List.not_mem_cons_of_ne_of_not_mem (by decide) (feed_not_mem_lineNote e.line)
  have hopen : '\n' ∉ "    ".toList ++ e.key := List.not_mem_append (by decide) hkey
  exact List.not_mem_append (List.not_mem_append (List.not_mem_append
    (List.not_mem_append hopen hvalue) (by decide)) htype) hnote

private theorem feed_not_mem_headerLine (b : Block) : '\n' ∉ headerLine b :=
  List.not_mem_append (List.not_mem_append (by decide) (feed_not_mem_decimal b.opening.line))
    (List.not_mem_cons_of_ne_of_not_mem (by decide) (feed_not_mem_decimal b.closing.line))

private theorem feed_not_mem_blockLines {b : Block} (hb : Keyed b) {l : List Char}
    (hl : l ∈ blockLines b) : '\n' ∉ l := by
  rw [blockLines_eq] at hl
  rcases List.mem_cons.mp hl with rfl | hl
  · exact feed_not_mem_headerLine b
  · rcases List.mem_append.mp hl with hl | hl
    · obtain ⟨k, -, rfl⟩ := List.mem_map.mp hl
      exact feed_not_mem_declarationLine k
    · obtain ⟨e, he, rfl⟩ := List.mem_map.mp hl
      exact feed_not_mem_entryLine (hb e he)

private theorem feed_not_mem_spanLine (p : Span) : '\n' ∉ spanLine p := by
  have hpad : '\n' ∉ padRight 12 (range p.extent.start p.extent.stop) := by
    refine List.not_mem_append (feed_not_mem_range _ _) fun hmem => ?_
    exact absurd (List.eq_of_mem_replicate hmem) (by decide)
  have hscope : '\n' ∉ ' ' :: p.scope.label := by cases p.scope <;> decide
  have hname : '\n' ∉ ' ' :: p.kind.name := by cases p.kind <;> decide
  have hextent : '\n' ∉ "  ".toList ++ padRight 12 (range p.extent.start p.extent.stop) :=
    List.not_mem_append (by decide) hpad
  exact List.not_mem_append (List.not_mem_append hextent hscope) hname

private theorem feed_not_mem_commaRun (ns : List Nat) : '\n' ∉ commaRun ns := by
  intro hmem
  obtain ⟨n, -, hn⟩ := List.mem_flatMap.mp hmem
  exact List.not_mem_cons_of_ne_of_not_mem (by decide)
    (List.not_mem_cons_of_ne_of_not_mem (by decide) (feed_not_mem_decimal n)) hn

private theorem feed_not_mem_lineNumbers (xs : List Delimiter) : '\n' ∉ lineNumbers xs := by
  cases xs with
  | nil => decide
  | cons x xs =>
    rw [lineNumbers_cons]
    exact List.not_mem_append (feed_not_mem_decimal x.line) (feed_not_mem_commaRun _)

end Feeds

section Lines

variable {r r' : Report}

def documentLine (r : Report) : List Char :=
  "document: ".toList ++ decimal r.lineCount ++ " lines, ".toList ++ decimal r.length ++
    " chars".toList

def spanLines (r : Report) : List (List Char) :=
  ("spans ".toList ++ range r.viewport.start r.viewport.stop ++ ':' :: ' ' ::
    decimal r.spans.length) :: r.spans.map spanLine

def restLines (r : Report) : List (List Char) :=
  ("horizontal rules: ".toList ++ lineNumbers r.detection.rules) ::
    ("orphan delimiters: ".toList ++ lineNumbers r.detection.orphans) :: spanLines r

private theorem textLines_eq (hfold : r.fold = none) (hcompletion : r.completion = none) :
    r.textLines = documentLine r :: ("blocks: ".toList ++ decimal r.detection.blocks.length) ::
      (r.detection.blocks.flatMap blockLines ++ restLines r) := by
  unfold textLines documentLine restLines spanLines
  rw [hfold, hcompletion]
  simp only [Option.toList_none, List.map_nil, Option.map_none, Option.getD_none, List.append_nil,
    List.append_assoc, List.cons_append, List.nil_append]

private theorem feed_not_mem_textLines (hfold : r.fold = none) (hcompletion : r.completion = none)
    (hkeyed : ∀ b ∈ r.detection.blocks, Keyed b) {l : List Char} (hl : l ∈ r.textLines) :
    '\n' ∉ l := by
  rw [textLines_eq hfold hcompletion, List.mem_cons, List.mem_cons, List.mem_append, restLines,
    List.mem_cons, List.mem_cons, spanLines, List.mem_cons] at hl
  rcases hl with rfl | rfl | hl | rfl | rfl | rfl | hl
  · refine List.not_mem_append (List.not_mem_append (List.not_mem_append ?_ (by decide))
      (feed_not_mem_decimal _)) (by decide)
    exact List.not_mem_append (by decide) (feed_not_mem_decimal _)
  · exact List.not_mem_append (by decide) (feed_not_mem_decimal _)
  · obtain ⟨b, hb, hl⟩ := List.mem_flatMap.mp hl
    exact feed_not_mem_blockLines (hkeyed b hb) hl
  · exact List.not_mem_append (by decide) (feed_not_mem_lineNumbers _)
  · exact List.not_mem_append (by decide) (feed_not_mem_lineNumbers _)
  · refine List.not_mem_append (List.not_mem_append (by decide) (feed_not_mem_range _ _)) ?_
    exact List.not_mem_cons_of_ne_of_not_mem (by decide)
      (List.not_mem_cons_of_ne_of_not_mem (by decide) (feed_not_mem_decimal _))
  · obtain ⟨p, -, rfl⟩ := List.mem_map.mp hl
    exact feed_not_mem_spanLine p

private theorem documentLine_inj (h : documentLine r = documentLine r') :
    r.lineCount = r'.lineCount ∧ r.length = r'.length := by
  unfold documentLine at h
  simp only [List.append_assoc] at h
  have hlines (s : List Char) : ∀ c ∈ (" lines, ".toList ++ s).head?, c.isDigit = false :=
    head?_cons_of (x := ' ') (by decide) _
  have hchars : ∀ c ∈ " chars".toList.head?, c.isDigit = false :=
    head?_cons_of (x := ' ') (by decide) _
  obtain ⟨hcount, hrest⟩ := decimal_append_inj (hlines _) (hlines _) (List.append_cancel_left h)
  obtain ⟨hlength, -⟩ := decimal_append_inj hchars hchars (List.append_cancel_left hrest)
  exact ⟨hcount, hlength⟩

private theorem spanLines_inj (h : spanLines r = spanLines r') :
    r.viewport = r'.viewport ∧ r.spans = r'.spans := by
  obtain ⟨hcount, hspans⟩ := List.cons.inj h
  simp only [List.append_assoc] at hcount
  obtain ⟨hstart, hstop, -⟩ := range_append_inj (head?_cons_of (by decide) _)
    (head?_cons_of (by decide) _) (List.append_cancel_left hcount)
  refine ⟨?_, List.map_injective_iff.mpr (fun _ _ => spanLine_injective) hspans⟩
  cases hv : r.viewport
  cases hv' : r'.viewport
  simp_all

/-- A blank in front tells the lines of blocks. -/
def isIndented (l : List Char) : Bool := l.head? == some ' '

private theorem isIndented_of_mem {bs : List Block} {l : List Char}
    (h : l ∈ bs.flatMap blockLines) : isIndented l = true := by
  obtain ⟨b, -, hl⟩ := List.mem_flatMap.mp h
  rw [blockLines_eq] at hl
  rcases List.mem_cons.mp hl with rfl | hl
  · rfl
  · obtain ⟨t, rfl⟩ := exists_of_mem_innerLines hl
    rfl

private theorem facts_of_textLines_eq (hfold : r.fold = none) (hfold' : r'.fold = none)
    (hcompletion : r.completion = none) (hcompletion' : r'.completion = none)
    (hkeyed : ∀ b ∈ r.detection.blocks, Keyed b) (hkeyed' : ∀ b ∈ r'.detection.blocks, Keyed b)
    (h : r.textLines = r'.textLines) : r.facts = r'.facts := by
  rw [textLines_eq hfold hcompletion, textLines_eq hfold' hcompletion'] at h
  obtain ⟨hdocument, htail⟩ := List.cons.inj h
  obtain ⟨hlines, hchars⟩ := documentLine_inj hdocument
  -- the lines of blocks end at the first line that is not indented
  obtain ⟨hblocks, hrest⟩ := append_inj_of_run (fun _ hl => isIndented_of_mem hl)
    (fun _ hl => isIndented_of_mem hl) (head?_cons_of rfl _) (head?_cons_of rfl _)
    (List.cons.inj htail).2
  obtain ⟨hrules, hbehind⟩ := List.cons.inj hrest
  obtain ⟨horphans, hspans⟩ := List.cons.inj hbehind
  obtain ⟨hviewport, hspans⟩ := spanLines_inj hspans
  rw [facts, facts, hlines, hchars, hviewport, hspans, blockLines_inj hkeyed hkeyed' hblocks,
    lineNumbers_inj (List.append_cancel_left hrules),
    lineNumbers_inj (List.append_cancel_left horphans)]

end Lines

end Report

def Detection.Real (x : Detection) : Prop := ∃ r d, x = ofDocument r d

private theorem Detection.Real.keyed {x : Detection} (h : x.Real) {b : Block} (hb : b ∈ x.blocks) :
    Report.Keyed b := by
  obtain ⟨r, d, rfl⟩ := h
  intro e he c hc
  obtain ⟨l, -, hkind⟩ := Block.exists_line_of_mem_entries hb he
  obtain ⟨f, hf, hof⟩ := LineKind.exists_field (l := l) (by rw [hkind]; rfl)
  rw [hkind, LineKind.ofField] at hof
  cases hk : Keyword.ofKey? f.key with
  | some w => simp [hk] at hof
  | none =>
    simp only [hk, LineKind.entry.injEq] at hof
    subst hof
    exact (LineKind.isKeyChar_iff c).mpr ((LineKind.key_of_field? hf).2 c hc)

namespace Engine

variable {e : Engine}

/-- Whatever the engine keeps was detected in some document, if not in the one it is kept for. -/
def KeepsReal (e : Engine) : Prop := ∀ k ∈ e.kept, k.detection.Real

private theorem KeepsReal.detect (h : e.KeepsReal) (d : Document) :
    (e.detect d).1.Real ∧ (e.detect d).2.KeepsReal := by
  by_cases hkept : e.kept.map Kept.key = some (e.keyOf d)
  · obtain ⟨k, hk, hkey⟩ := Option.map_eq_some_iff.mp hkept
    rw [detect_of_kept hk hkey]
    exact ⟨h k hk, h⟩
  · rw [detect_of_not_kept hkept]
    refine ⟨⟨_, d, rfl⟩, fun k hk => ?_⟩
    obtain rfl := Option.some.inj hk
    exact ⟨_, d, rfl⟩

private theorem KeepsReal.step (h : e.KeepsReal) (c : Call) : (e.step c).2.KeepsReal := by
  cases hc : c.document? with
  | some d =>
    rw [step_of_document e hc]
    exact (h.detect d).2
  | none =>
    rw [eq_invalidate_of_document hc]
    intro k hk
    cases hk

private theorem KeepsReal.run (h : e.KeepsReal) (calls : List Call) :
    (e.run calls).2.KeepsReal := by
  induction calls generalizing e with
  | nil => exact h
  | cons c calls ih => exact ih (h.step c)

theorem keepsReal_run_new (s : Settings) (digest : List Char → UInt64) (calls : List Call) :
    (run { settings := s, digest := digest } calls).2.KeepsReal := by
  refine KeepsReal.run ?_ calls
  intro k hk
  cases hk

end Engine

namespace Report

section Congruence

private theorem declarationLine_congr {k k' : Declaration} (h : k.facts = k'.facts) :
    declarationLine k = declarationLine k' := by
  obtain ⟨hkeyword, hname, hline⟩ :
      k.keyword = k'.keyword ∧ k.name = k'.name ∧ k.line = k'.line := by
    simpa [Declaration.facts] using h
  unfold declarationLine
  rw [hkeyword, hname, hline]

private theorem entryLine_congr {e e' : Entry} (h : e.facts = e'.facts) :
    entryLine e = entryLine e' := by
  obtain ⟨hkey, hvalue, htype, hline⟩ :
      e.key = e'.key ∧ e.value = e'.value ∧ e.type = e'.type ∧ e.line = e'.line := by
    simpa [Entry.facts] using h
  unfold entryLine
  rw [hkey, hvalue, htype, hline]

private theorem blockLines_congr {b b' : Block} (h : b.facts = b'.facts) :
    blockLines b = blockLines b' := by
  obtain ⟨hopening, hclosing, hdeclarations, hentries⟩ := Block.Facts.mk.inj h
  rw [blockLines_eq, blockLines_eq]
  unfold headerLine innerLines
  rw [hopening, hclosing, map_eq_of_map_eq (fun _ _ _ _ => declarationLine_congr) hdeclarations,
    map_eq_of_map_eq (fun _ _ _ _ => entryLine_congr) hentries]

private theorem lineNumbers_congr {xs ys : List Delimiter} (h : xs.map (·.line) = ys.map (·.line)) :
    lineNumbers xs = lineNumbers ys := by
  cases xs with
  | nil =>
    rw [List.map_nil, List.nil_eq, List.map_eq_nil_iff] at h
    rw [h]
  | cons x xs =>
    cases ys with
    | nil => cases h
    | cons y ys =>
      obtain ⟨hfirst, hrest⟩ : x.line = y.line ∧ xs.map (·.line) = ys.map (·.line) := by
        simpa using h
      rw [lineNumbers_cons, lineNumbers_cons, hfirst, hrest]

private theorem textLines_congr {r r' : Report} (hfold : r.fold = none) (hfold' : r'.fold = none)
    (hcompletion : r.completion = none) (hcompletion' : r'.completion = none)
    (h : r.facts = r'.facts) : r.textLines = r'.textLines := by
  obtain ⟨hlines, hchars, hviewport, hspans, hrules, horphans, hblocks⟩ := Facts.mk.inj h
  have hcount : r.detection.blocks.length = r'.detection.blocks.length := by
    simpa using congrArg List.length hblocks
  have hblocks := map_eq_of_map_eq (fun _ _ _ _ => blockLines_congr) hblocks
  rw [textLines_eq hfold hcompletion, textLines_eq hfold' hcompletion', List.flatMap_def,
    List.flatMap_def]
  unfold documentLine restLines spanLines
  rw [hlines, hchars, hcount, hblocks, lineNumbers_congr hrules, lineNumbers_congr horphans,
    hviewport, hspans]

end Congruence

theorem toText_eq_iff {r r' : Report} (hfold : r.fold = none) (hfold' : r'.fold = none)
    (hcompletion : r.completion = none) (hcompletion' : r'.completion = none)
    (hreal : r.detection.Real) (hreal' : r'.detection.Real) :
    r.toText = r'.toText ↔ r.facts = r'.facts := by
  have hkeyed : ∀ b ∈ r.detection.blocks, Keyed b := fun b hb => hreal.keyed hb
  have hkeyed' : ∀ b ∈ r'.detection.blocks, Keyed b := fun b hb => hreal'.keyed hb
  constructor
  · intro h
    refine facts_of_textLines_eq hfold hfold' hcompletion hcompletion' hkeyed hkeyed' ?_
    exact lines_of_join (fun l hl => feed_not_mem_textLines hfold hcompletion hkeyed hl)
      (fun l hl => feed_not_mem_textLines hfold' hcompletion' hkeyed' hl) h
  · intro h
    rw [toText, toText, textLines_congr hfold hfold' hcompletion hcompletion' h]

def fresh (s : Settings) (d : Document) (r : Request) : Report :=
  let x := Detection.ofDocument s.detection d
  { lineCount := d.lineCount
    length := d.length
    detection := x
    viewport := viewportOf r d
    spans := Decoration.ofDetection x (viewportOf r d)
    fold := r.foldLine.map fun line => ⟨line, Fold.atLine? line x.blocks⟩
    completion := r.cursor.map fun c => ⟨d.clamp c, CompletionContext.atCursor? d (d.clamp c),
      Candidate.atCursor d (d.clamp c) x.blocks r.catalog⟩ }

section Fresh

variable {s : Settings} {digest : List Char → UInt64} {docs : List Document} {e : Engine}
  {d : Document}

private theorem foldOf_of_coherent (h : Engine.Coherent s digest docs e)
    (hsep : Engine.Separates digest docs) (hd : d ∈ docs) (r : Request) :
    (foldOf e d r).1 = (fresh s d r).fold ∧ Engine.Coherent s digest docs (foldOf e d r).2 := by
  unfold foldOf fresh
  cases r.foldLine with
  | none => exact ⟨rfl, h⟩
  | some line =>
    obtain ⟨hx, he⟩ := h.detect hsep hd
    simp only [Engine.foldAt?_eq, hx]
    exact ⟨rfl, he⟩

private theorem completionOf_of_coherent (h : Engine.Coherent s digest docs e)
    (hsep : Engine.Separates digest docs) (hd : d ∈ docs) (r : Request) :
    (completionOf e d r).1 = (fresh s d r).completion := by
  unfold completionOf fresh
  cases r.cursor with
  | none => rfl
  | some c =>
    obtain ⟨hx, -⟩ := h.detect hsep hd
    simp only [Engine.complete_eq, hx]
    rfl

/-- A report holds the counts, the detection and the spans of its own document, also where the
engine kept the detection of another. -/
theorem build_eq_fresh (h : Engine.Coherent s digest docs e) (hsep : Engine.Separates digest docs)
    (hd : d ∈ docs) (r : Request) : (build e d r).1 = fresh s d r := by
  obtain ⟨hdetection, he⟩ := h.detect hsep hd
  obtain ⟨hspans, he'⟩ := he.detect hsep hd
  obtain ⟨hfold, he''⟩ := foldOf_of_coherent he' hsep hd r
  have hcompletion := completionOf_of_coherent he'' hsep hd r
  simp only [build, Engine.decorate_eq, hdetection, hspans, Decoration.ofDetection_clamp, hfold,
    hcompletion]
  rfl

theorem build_new (s : Settings) (digest : List Char → UInt64) (d : Document) (r : Request) :
    (build { settings := s, digest := digest } d r).1 = fresh s d r := by
  have hnew : Engine.Coherent s digest [d] { settings := s, digest := digest } :=
    ⟨rfl, rfl, fun _ hk => by cases hk⟩
  have hsep : Engine.Separates digest [d] := by simp [Engine.Separates]
  exact build_eq_fresh hnew hsep List.mem_cons_self r

end Fresh

/-- The text of a report on detection and a viewport tells all its facts and nothing else, whatever
the engine was asked before. -/
theorem text_tells_facts (s s' : Settings) (digest digest' : List Char → UInt64)
    (calls calls' : List Engine.Call) (d d' : Document) (v v' : Option Extent)
    (catalog catalog' : Catalog) :
    let r := (build (Engine.run { settings := s, digest := digest } calls).2 d
      { viewport := v, catalog := catalog }).1
    let r' := (build (Engine.run { settings := s', digest := digest' } calls').2 d'
      { viewport := v', catalog := catalog' }).1
    r.toText = r'.toText ↔ r.facts = r'.facts := by
  intro r r'
  have hreal : r.detection.Real := ((Engine.keepsReal_run_new s digest calls).detect d).1
  have hreal' : r'.detection.Real := ((Engine.keepsReal_run_new s' digest' calls').detect d').1
  exact toText_eq_iff rfl rfl rfl rfl hreal hreal'

/-- Two documents that differ in one name. -/
theorem text_tells_facts_renamed :
    let d := Document.ofText "---\nSCOPE: a\n---\n".toList
    let d' := Document.ofText "---\nSCOPE: b\n---\n".toList
    let r := (build { settings := {} } d {}).1
    let r' := (build { settings := {} } d' {}).1
    r = fresh {} d {} ∧ r' = fresh {} d' {} ∧ r.facts ≠ r'.facts ∧ r.toText ≠ r'.toText := by
  intro d d' r r'
  have hr : r = fresh {} d {} := build_new {} Text.digest d {}
  have hr' : r' = fresh {} d' {} := build_new {} Text.digest d' {}
  have hblocks : (fresh {} d {}).facts.blocks ≠ (fresh {} d' {}).facts.blocks := by decide +kernel
  have hfacts : r.facts ≠ r'.facts := by
    rw [hr, hr']
    exact fun h => hblocks (congrArg Facts.blocks h)
  refine ⟨hr, hr', hfacts, fun htext => hfacts ?_⟩
  exact (text_tells_facts {} {} Text.digest Text.digest [] [] d d' none none [] []).mp htext

end Report

end MetaBlocks
