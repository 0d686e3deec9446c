import MetaBlocks.Proofs.Correspondence
import MetaBlocks.Proofs.Cuts
import MetaBlocks.Proofs.KeywordLines
import MetaBlocks.Proofs.Settlement

/-!
Pages that are written down and read back. A page is a list of blocks of fields with text between
them, and rendering puts each part on lines of its own. Detection finds the blocks of the page and
nothing else, whatever the keys, the values and the text between the blocks look like.
-/

set_option autoImplicit false
set_option relaxedAutoImplicit false

namespace MetaBlocks

/-- A field to be written: a key, and a value without line feeds and with no white space around. -/
structure WrittenField where
  key : List Char
  value : List Char
  key_ne_nil : key ≠ [] := by decide
  key_chars : key.all LineKind.isKeyChar = true := by decide
  clean : '\n' ∉ value := by decide
  head : value.head?.all (!Text.isBlank ·) = true := by decide
  last : value.getLast?.all (!Text.isBlank ·) = true := by decide

/-- A block to be written: the lengths of its two lines of dashes, and its fields. -/
structure WrittenBlock where
  opening : Nat
  closing : Nat
  fields : List WrittenField
  three_le_opening : 3 ≤ opening := by decide
  three_le_closing : 3 ≤ closing := by decide
  fields_ne_nil : fields ≠ [] := by simp

structure Gap where
  lines : List (List Char)
  clean : ∀ u ∈ lines, '\n' ∉ u := by decide
  noDelimiter : ∀ u ∈ lines, LineKind.isDelimiterText u = false := by decide

structure Page where
  top : Gap
  blocks : List (WrittenBlock × Gap)

namespace WrittenField

def text (f : WrittenField) : List Char := f.key ++ ':' :: ' ' :: f.value

def declaration? (f : WrittenField) : Option (Keyword × List Char) :=
  if f.key = "SCOPE".toList then some (.scope, f.value)
  else if f.key = "QUILL".toList then some (.quill, f.value)
  else none

def entry? (f : WrittenField) : Option (List Char × List Char × ValueType) :=
  if f.declaration?.isSome then none else some (f.key, f.value, .infer f.value)

end WrittenField

def WrittenBlock.lines (w : WrittenBlock) : List (List Char) :=
  List.replicate w.opening '-' :: (w.fields.map WrittenField.text ++ [List.replicate w.closing '-'])

namespace Page

def lines (p : Page) : List (List Char) :=
  p.top.lines ++ p.blocks.flatMap fun b => b.1.lines ++ b.2.lines

/-- The page as a text: every line is followed by a line feed. -/
def text (p : Page) : List Char := p.lines.flatMap (· ++ ['\n'])

/-- The blocks with the numbers of their opening lines, the first of which follows the given one. -/
def numbered (line : Nat) : List (WrittenBlock × Gap) → List (Nat × WrittenBlock)
  | [] => []
  | (w, g) :: rest => (line + 1, w) :: numbered (line + w.lines.length + g.lines.length) rest

end Page

/-- A block is the written one, found where it was put. -/
structure WrittenBlock.ReadAs (w : WrittenBlock) (line : Nat) (b : Block) : Prop where
  opening : b.opening.line = line
  closing : b.closing.line = line + w.fields.length + 1
  declarations : b.declarations.map (fun k => (k.keyword, k.name)) =
    w.fields.filterMap WrittenField.declaration?
  entries : b.entries.map (fun e => (e.key, e.value, e.type)) =
    w.fields.filterMap WrittenField.entry?

private theorem Text.isBlank_of_all {o : Option Char} (h : o.all (!isBlank ·) = true) :
    ∀ c ∈ o, isBlank c = false := by
  intro c hc
  rw [Option.mem_def.mp hc] at h
  simpa using h

private theorem Text.feed_not_mem_dashes (n : Nat) : '\n' ∉ List.replicate n '-' := by
  intro hmem
  exact absurd (List.eq_of_mem_replicate hmem) (by decide)

theorem Text.rows_flatMap_feed {us : List (List Char)} (h : ∀ u ∈ us, '\n' ∉ u) :
    rows (us.flatMap (· ++ ['\n'])) = us.map (· ++ ['\n']) := by
  induction us with
  | nil => rfl
  | cons u us ih =>
    have hus := ih fun v hv => h v (List.mem_cons_of_mem u hv)
    rw [List.flatMap_cons, List.append_assoc, List.singleton_append,
      rows_append_feed (h u List.mem_cons_self), hus, List.map_cons]

namespace LineKind

private theorem isDelimiterText_append_return (v : List Char) :
    isDelimiterText (v ++ ['\r']) = isDelimiterText v := by
  have hblank (t : List Char) : Text.isBlankText (t ++ ['\r']) = Text.isBlankText t := by
    have hreturn : Text.isBlank '\r' = true := by decide
    simp [Text.isBlankText, hreturn]
  have htake (t : List Char) : (t ++ ['\r']).takeWhile (· == '-') = t.takeWhile (· == '-') := by
    induction t with
    | nil => rfl
    | cons c t ih => simp only [List.cons_append, List.takeWhile_cons, ih]
  have hdrop (t : List Char) :
      (t ++ ['\r']).dropWhile (· == '-') = t.dropWhile (· == '-') ++ ['\r'] := by
    induction t with
    | nil => rfl
    | cons c t ih =>
      simp only [List.cons_append, List.dropWhile_cons]
      split
      · exact ih
      · rfl
  rw [isDelimiterText, isDelimiterText, htake, hdrop, hblank]

private theorem isDelimiterText_dropReturn (u : List Char) :
    isDelimiterText (CompletionContext.dropReturn u) = isDelimiterText u := by
  rcases CompletionContext.dropReturn_cases u with ⟨hsame, -⟩ | hreturn
  · rw [hsame]
  · conv_rhs => rw [hreturn]
    exact (isDelimiterText_append_return _).symm

private theorem isDelimiterText_replicate {n : Nat} (h : 3 ≤ n) :
    isDelimiterText (List.replicate n '-') = true := by
  have htake : (List.replicate n '-').takeWhile (· == '-') = List.replicate n '-' :=
    List.takeWhile_eq_self_iff.mpr fun c hc => by simp [(List.mem_replicate.mp hc).2]
  have hdrop : (List.replicate n '-').dropWhile (· == '-') = [] :=
    List.dropWhile_eq_nil_iff.mpr fun c hc => by simp [(List.mem_replicate.mp hc).2]
  rw [isDelimiterText, htake, hdrop, List.length_replicate]
  simp [h, Text.isBlankText]

end LineKind

namespace WrittenField

variable (f : WrittenField)

private theorem isKeyChar_of_mem_key : ∀ c ∈ f.key, LineKind.isKeyChar c = true :=
  List.all_eq_true.mp f.key_chars

private theorem not_mem_text : '\n' ∉ f.text := by
  have hkey : '\n' ∉ f.key := by
    intro hmem
    exact absurd (f.isKeyChar_of_mem_key _ hmem) (by decide)
  simp [text, hkey, f.clean]

private theorem getLast?_text : f.text.getLast? ≠ some '\r' := by
  intro h
  rw [text, List.getLast?_append_of_ne_nil _ (by simp), List.getLast?_cons_cons, List.getLast?_cons,
    Option.some.injEq] at h
  cases hv : f.value.getLast? with
  | none =>
    rw [hv] at h
    exact absurd h (by decide)
  | some c =>
    have hblank := Text.isBlank_of_all f.last c hv
    rw [hv, Option.getD_some] at h
    rw [h] at hblank
    exact absurd hblank (by decide)

private theorem field?_text : LineKind.field? f.text =
    some ⟨[], f.key, (' ' :: f.value).takeWhile Text.isBlank, f.value⟩ := by
  have hfield := LineKind.field?_append (show Text.isBlankText [] = true from rfl) f.key_ne_nil
    f.isKeyChar_of_mem_key (' ' :: f.value)
  have htrim : Text.trim (' ' :: f.value) = f.value := by
    have hstart := Text.trimStart_append (s := [' ']) (by decide) (Text.isBlank_of_all f.head)
    rw [List.singleton_append] at hstart
    rw [Text.trim, hstart, Text.trimEnd_eq_self (Text.isBlank_of_all f.last)]
  rw [htrim, List.nil_append] at hfield
  exact hfield

private theorem declaration?_eq :
    f.declaration? = (Keyword.ofKey? f.key).map fun k => (k, f.value) := by
  have hwords : f.declaration? =
      if f.key = Keyword.scope.word then some (.scope, f.value)
      else if f.key = Keyword.quill.word then some (.quill, f.value)
      else none := rfl
  rw [hwords, Keyword.ofKey?]
  split_ifs <;> rfl

end WrittenField

namespace KindedLine

def ofTexts (number start : Nat) (us : List (List Char)) : List KindedLine :=
  (Line.ofRows number start (us.map (· ++ ['\n']))).map .ofLine

private theorem ofTexts_nil (number start : Nat) : ofTexts number start [] = [] := rfl

private theorem ofTexts_cons (number start : Nat) (u : List Char) (us : List (List Char)) :
    ofTexts number start (u :: us) =
      ofLine ⟨number, start, Text.withoutBreak (u ++ ['\n']), start + (u ++ ['\n']).length⟩ ::
        ofTexts (number + 1) (start + (u ++ ['\n']).length) us := rfl

private theorem ofTexts_append (number start : Nat) (us vs : List (List Char)) :
    ofTexts number start (us ++ vs) = ofTexts number start us ++
      ofTexts (number + us.length) (start + (us.map (· ++ ['\n'])).flatten.length) vs := by
  rw [ofTexts, List.map_append, Line.ofRows_append, List.map_append, List.length_map]
  rfl

private theorem isDelimiter_ofLine_feed {u : List Char} (h : '\n' ∉ u) (number start stop : Nat) :
    (ofLine ⟨number, start, Text.withoutBreak (u ++ ['\n']), stop⟩).isDelimiter =
      LineKind.isDelimiterText u := by
  rw [Bool.eq_iff_iff, isDelimiter, decide_eq_true_iff, ofLine, LineKind.ofLine_eq_delimiter_iff,
    Text.withoutBreak_append_feed h, LineKind.isDelimiterText_dropReturn]

private theorem map_isDelimiter_ofTexts {us : List (List Char)} (h : ∀ u ∈ us, '\n' ∉ u)
    (number start : Nat) :
    (ofTexts number start us).map isDelimiter = us.map LineKind.isDelimiterText := by
  induction us generalizing number start with
  | nil => rfl
  | cons u us ih =>
    have hus := ih fun v hv => h v (List.mem_cons_of_mem u hv)
    rw [ofTexts_cons, List.map_cons, List.map_cons, hus,
      isDelimiter_ofLine_feed (h u List.mem_cons_self)]

private theorem isDelimiter_ofLine_dashes {n : Nat} (h : 3 ≤ n) (number start stop : Nat) :
    (ofLine ⟨number, start, Text.withoutBreak (List.replicate n '-' ++ ['\n']), stop⟩).isDelimiter =
      true := by
  rw [isDelimiter_ofLine_feed (Text.feed_not_mem_dashes n), LineKind.isDelimiterText_replicate h]

structure Shows (l : KindedLine) (f : WrittenField) : Prop where
  text : l.line.text = f.text
  kind : l.kind = .ofLine l.line

namespace Shows

variable {l : KindedLine} {f : WrittenField}

private theorem eq_ofField (h : l.Shows f) : l.kind = .ofField l.line
    ⟨[], f.key, (' ' :: f.value).takeWhile Text.isBlank, f.value⟩ := by
  rw [h.kind]
  refine LineKind.ofLine_of_field? ?_
  rw [h.text]
  exact f.field?_text

private theorem declaration? (h : l.Shows f) :
    l.kind.declaration?.map (fun k => (k.keyword, k.name)) = f.declaration? := by
  rw [h.eq_ofField, LineKind.ofField, f.declaration?_eq]
  cases Keyword.ofKey? f.key <;> rfl

private theorem entry? (h : l.Shows f) :
    (LineKind.entry? l.kind).map (fun e => (e.key, e.value, e.type)) = f.entry? := by
  rw [h.eq_ofField, LineKind.ofField, WrittenField.entry?, f.declaration?_eq]
  cases Keyword.ofKey? f.key <;> rfl

private theorem qualifies (h : l.Shows f) : l.qualifies = true := by
  rw [KindedLine.qualifies, h.eq_ofField, LineKind.ofField]
  split <;> rfl

private theorem isDelimiter (h : l.Shows f) : l.isDelimiter = false := by
  have hqualifies := h.qualifies
  rw [KindedLine.qualifies] at hqualifies
  rw [KindedLine.isDelimiter, decide_eq_false_iff_not]
  intro hk
  rw [hk] at hqualifies
  cases hqualifies

end Shows

private theorem forall₂_shows (fs : List WrittenField) (number start : Nat) :
    List.Forall₂ Shows (ofTexts number start (fs.map WrittenField.text)) fs := by
  induction fs generalizing number start with
  | nil => exact .nil
  | cons f fs ih =>
    refine .cons ⟨?_, rfl⟩ (ih _ _)
    change Text.withoutBreak (f.text ++ ['\n']) = f.text
    rw [Text.withoutBreak_append_feed f.not_mem_text, CompletionContext.dropReturn,
      if_neg f.getLast?_text]

end KindedLine

private theorem Section.ofLines_enclosed {above : Option KindedLine} {o c : KindedLine}
    {body : List KindedLine} (ho : o.isDelimiter = true)
    (hbody : ∀ l ∈ body, l.isDelimiter = false) (hc : c.isDelimiter = true) :
    ofLines above (o :: (body ++ [c])) =
      [⟨above, o, body⟩, ⟨body.getLast?.or (some o), c, []⟩] := by
  have htake : (body ++ [c]).takeWhile (fun m => !m.isDelimiter) = body := by
    rw [List.takeWhile_append_of_pos (by simpa using hbody),
      List.takeWhile_cons_of_neg (by simp [hc]), List.append_nil]
  rw [ofLines, if_pos ho, htake, ofLines_append, ofLines_eq_nil_iff.mpr hbody, ofLines, if_pos hc]
  rfl

private theorem WrittenBlock.readAs_ofSection {w : WrittenBlock} {above : Option KindedLine}
    {o c : KindedLine} {body : List KindedLine} {line : Nat} (ho : o.line.number = line)
    (hc : c.line.number = line + w.fields.length + 1)
    (hbody : List.Forall₂ KindedLine.Shows body w.fields) :
    w.ReadAs line (.ofSection ⟨above, o, body⟩ c) where
  opening := ho
  closing := hc
  declarations := by
    rw [Block.ofSection, List.map_filterMap]
    exact filterMap_eq_filterMap_of_forall₂ (fun _ _ h => h.declaration?) hbody
  entries := by
    rw [Block.ofSection, List.map_filterMap]
    exact filterMap_eq_filterMap_of_forall₂ (fun _ _ h => h.entry?) hbody

/-- A settlement of the given blocks, with nothing passed over and nothing pending. -/
structure Settlement.Reads (ws : List (Nat × WrittenBlock)) (x : Settlement) : Prop where
  blocks : List.Forall₂ (fun w b => w.2.ReadAs w.1 b) ws x.blocks
  passed : x.passed = []
  pending : x.pending = none

namespace Section

variable {above : Option KindedLine} {ls ms : List KindedLine}

private theorem reads_append {ws vs : List (Nat × WrittenBlock)}
    (hls : (settle (ofLines above ls)).Reads ws)
    (hms : (settle (ofLines (ls.getLast?.or above) ms)).Reads vs) :
    (settle (ofLines above (ls ++ ms))).Reads (ws ++ vs) := by
  rw [settle_ofLines_append_of_none hls.pending]
  refine ⟨?_, ?_, hms.pending⟩
  · rw [Settlement.blocks_followedBy]
    exact List.rel_append hls.blocks hms.blocks
  · rw [Settlement.followedBy, hls.passed, hms.passed, List.nil_append]

private theorem reads_gap (g : Gap) (number start : Nat) (above : Option KindedLine) :
    (settle (ofLines above (KindedLine.ofTexts number start g.lines))).Reads [] := by
  have hnone : ∀ l ∈ KindedLine.ofTexts number start g.lines, l.isDelimiter = false := by
    intro l hl
    have hmem := List.mem_map_of_mem (f := KindedLine.isDelimiter) hl
    rw [KindedLine.map_isDelimiter_ofTexts g.clean] at hmem
    obtain ⟨u, hu, hul⟩ := List.mem_map.mp hmem
    rw [← hul, g.noDelimiter u hu]
  rw [ofLines_eq_nil_iff.mpr hnone]
  exact ⟨.nil, rfl, rfl⟩

private theorem reads_block (w : WrittenBlock) (number start : Nat) (above : Option KindedLine) :
    (settle (ofLines above (KindedLine.ofTexts number start w.lines))).Reads [(number, w)] := by
  rw [WrittenBlock.lines, KindedLine.ofTexts_cons, KindedLine.ofTexts_append, List.length_map,
    KindedLine.ofTexts_cons, KindedLine.ofTexts_nil]
  have hbody := KindedLine.forall₂_shows w.fields (number + 1)
    (start + (List.replicate w.opening '-' ++ ['\n']).length)
  generalize KindedLine.ofTexts (number + 1) _ (w.fields.map WrittenField.text) = body at hbody ⊢
  have hdelimiters : ∀ l ∈ body, l.isDelimiter = false :=
    ((List.forall₂_and_left _ _).mp (hbody.imp fun _ _ h => ⟨h.isDelimiter, h⟩)).1
  have hqualify : ∀ l ∈ body, l.qualifies = true :=
    ((List.forall₂_and_left _ _).mp (hbody.imp fun _ _ h => ⟨h.qualifies, h⟩)).1
  have hne : body ≠ [] := by
    intro hnil
    rw [hnil, List.forall₂_nil_left_iff] at hbody
    exact w.fields_ne_nil hbody
  obtain ⟨l, hl⟩ := List.exists_mem_of_ne_nil body hne
  rw [ofLines_enclosed (KindedLine.isDelimiter_ofLine_dashes w.three_le_opening ..) hdelimiters
    (KindedLine.isDelimiter_ofLine_dashes w.three_le_closing ..),
    settle_pair (List.any_eq_true.mpr ⟨l, hl, hqualify l hl⟩)]
  refine ⟨.cons (WrittenBlock.readAs_ofSection rfl ?_ hbody) .nil, rfl, rfl⟩
  exact Nat.add_right_comm number 1 w.fields.length

/-- Blocks and gaps leave nothing pending, so the pairing starts afresh at every block. -/
theorem reads_blocks (bs : List (WrittenBlock × Gap)) (line start : Nat)
    (above : Option KindedLine) :
    (settle (ofLines above (KindedLine.ofTexts (line + 1) start
      (bs.flatMap fun b => b.1.lines ++ b.2.lines)))).Reads (Page.numbered line bs) := by
  induction bs generalizing line start above with
  | nil => exact ⟨.nil, rfl, rfl⟩
  | cons b bs ih =>
    obtain ⟨w, g⟩ := b
    rw [List.flatMap_cons, List.append_assoc, KindedLine.ofTexts_append,
      KindedLine.ofTexts_append, Nat.add_right_comm line 1, Nat.add_right_comm _ 1]
    exact reads_append (reads_block w ..) (reads_append (reads_gap g ..) (ih ..))

end Section

namespace Page

variable (p : Page)

private theorem not_mem_of_mem_lines {u : List Char} (hu : u ∈ p.lines) : '\n' ∉ u := by
  rw [lines, List.mem_append, List.mem_flatMap] at hu
  rcases hu with hu | ⟨b, -, hu⟩
  · exact p.top.clean u hu
  · rw [List.mem_append, WrittenBlock.lines, List.mem_cons, List.mem_append, List.mem_map,
      List.mem_singleton] at hu
    rcases hu with (rfl | ⟨f, -, rfl⟩ | rfl) | hu
    · exact Text.feed_not_mem_dashes _
    · exact f.not_mem_text
    · exact Text.feed_not_mem_dashes _
    · exact b.2.clean u hu

private theorem kindedLines_text (revision : Nat) :
    (Document.mk p.text revision).kindedLines = KindedLine.ofTexts 1 0 p.lines := by
  rw [Document.kindedLines, Document.lines, text,
    Text.rows_flatMap_feed fun u hu => p.not_mem_of_mem_lines hu]
  rfl

private theorem reads_sections (revision : Nat) :
    (Section.settle (Document.mk p.text revision).sections).Reads
      (numbered p.top.lines.length p.blocks) := by
  rw [Document.sections, kindedLines_text, lines, KindedLine.ofTexts_append, Nat.add_comm 1]
  exact Section.reads_append (Section.reads_gap p.top ..) (Section.reads_blocks p.blocks ..)

end Page

/-- A written page is read back: its blocks are found in order, each on its lines and with its
fields, and no delimiter is left for a rule or an orphan. -/
theorem Detection.page_read_back (r : DetectionRules) (p : Page) (revision : Nat) :
    List.Forall₂ (fun w b => w.2.ReadAs w.1 b) (Page.numbered p.top.lines.length p.blocks)
        (ofDocument r ⟨p.text, revision⟩).blocks ∧
      (ofDocument r ⟨p.text, revision⟩).rules = [] ∧
      (ofDocument r ⟨p.text, revision⟩).orphans = [] := by
  have hreads := p.reads_sections revision
  rw [ofDocument_eq, Settlement.detection_of_none hreads.pending, hreads.passed]
  exact ⟨hreads.blocks, rfl, rfl⟩

/-- Text that looks like fields and nearly like delimiters, a key and values made of dashes, a value
with a return and a blank inside, and a name that is left out. -/
def Page.misleading : Page where
  top := { lines := ["SCOPE: none".toList, " ---".toList, []] }
  blocks :=
    [({ opening := 3
        closing := 5
        fields := [
          { key := "---".toList, value := "---".toList },
          { key := "SCOPE".toList, value := [] },
          { key := "QUILL".toList, value := "a:\r \u00a0b".toList }] },
      { lines := ["---: ---\r".toList, "--".toList] }),
    ({ opening := 4
       closing := 3
       fields := [{ key := "count".toList, value := "3".toList }] },
      { lines := [] })]

theorem Detection.page_read_back_misleading :
    Page.misleading.text =
        ("SCOPE: none\n ---\n\n" ++
          "---\n---: ---\nSCOPE: \nQUILL: a:\r \u00a0b\n-----\n---: ---\r\n--\n" ++
          "----\ncount: 3\n---\n").toList ∧
      (Page.numbered 3 Page.misleading.blocks).map Prod.fst = [4, 11] ∧
      List.Forall₂ (fun w b => w.2.ReadAs w.1 b) (Page.numbered 3 Page.misleading.blocks)
        (ofDocument {} ⟨Page.misleading.text, 0⟩).blocks ∧
      (ofDocument {} ⟨Page.misleading.text, 0⟩).rules = [] ∧
      (ofDocument {} ⟨Page.misleading.text, 0⟩).orphans = [] :=
  ⟨by decide +kernel, by decide, page_read_back {} Page.misleading 0⟩

end MetaBlocks
