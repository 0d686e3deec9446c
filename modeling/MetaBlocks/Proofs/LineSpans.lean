import Mathlib.Data.List.Nodup
import Mathlib.Data.List.Perm.Basic
import MetaBlocks.Proofs.Grammar
import MetaBlocks.Proofs.Restriction

/-!
Decoration read off the lines. Blocks contribute their spans category by category, and orphans come
last; sorted, this is the same as walking down the lines once, giving each line of a block its
background and then its marks, and the orphan its one mark.
-/

set_option autoImplicit false
set_option relaxedAutoImplicit false

namespace MetaBlocks

namespace KindedLine

def background (k : KindedLine) : Span := ⟨k.fullExtent, .blockBackground⟩

def marks (k : KindedLine) : List Span :=
  match k.kind with
  | .delimiter => [k.asDelimiter.span]
  | .declaration c => c.spans
  | .entry e => e.spans
  | .blank => []
  | .text => []

private theorem marks_of_isDelimiter {k : KindedLine} (h : k.isDelimiter = true) :
    k.marks = [k.asDelimiter.span] := by
  rw [isDelimiter, decide_eq_true_eq] at h
  simp [marks, h]

private theorem marks_of_not_isDelimiter {k : KindedLine} (h : k.isDelimiter = false) :
    k.marks = k.kind.declaration?.toList.flatMap Declaration.spans ++
      k.kind.entry?.toList.flatMap Entry.spans := by
  rw [isDelimiter, decide_eq_false_iff_not] at h
  cases hk : k.kind with
  | delimiter => exact absurd hk h
  | declaration c => simp [marks, hk, LineKind.declaration?, LineKind.entry?]
  | entry e => simp [marks, hk, LineKind.declaration?, LineKind.entry?]
  | blank => simp [marks, hk, LineKind.declaration?, LineKind.entry?]
  | text => simp [marks, hk, LineKind.declaration?, LineKind.entry?]

variable {d : Document} {k : KindedLine} (hk : k ∈ d.kindedLines)
include hk

theorem line_mem : k.line ∈ d.lines := by
  obtain ⟨i, hi⟩ := List.mem_iff_getElem?.mp hk
  exact List.mem_of_getElem? (d.kindedLine_at hi).1

private theorem marks_cases :
    k.marks = [] ∨ k.marks = [k.asDelimiter.span] ∨
      ∃ key value keyExtent valueExtent a b,
        LineKind.FieldAt d k.line key value keyExtent valueExtent ∧ a.scope = .mark ∧
        b.scope = .mark ∧ k.marks = [⟨keyExtent, a⟩, ⟨valueExtent, b⟩] := by
  have hkind := Document.kind_eq_ofLine hk
  unfold marks
  cases hline : k.kind with
  | blank => exact .inl rfl
  | text => exact .inl rfl
  | delimiter => exact .inr (.inl rfl)
  | declaration c =>
    have hat := (LineKind.declaration_at (line_mem hk) (hkind.symm.trans hline)).2
    exact .inr (.inr ⟨_, _, _, _, _, _, hat, by cases c.keyword <;> rfl, rfl, rfl⟩)
  | entry e =>
    have hat := (LineKind.entry_at (line_mem hk) (hkind.symm.trans hline)).2
    exact .inr (.inr ⟨_, _, _, _, _, _, hat, rfl, by cases e.type <;> rfl, rfl⟩)

theorem mark_on_line {p : Span} (h : p ∈ k.marks) :
    p.scope = .mark ∧ k.line.start ≤ p.extent.start ∧ p.extent.stop ≤ k.line.stop := by
  rcases marks_cases hk with hnone | hone | ⟨key, value, e, f, a, b, hat, ha, hb, hboth⟩
  · simp [hnone] at h
  · rw [hone, List.mem_singleton] at h
    rw [h]
    exact ⟨rfl, Nat.le_refl _, Nat.le_refl _⟩
  · rw [hboth] at h
    simp only [List.mem_cons, List.not_mem_nil, or_false] at h
    rcases h with rfl | rfl
    · exact ⟨ha, hat.key_within.1, hat.key_within.2.2⟩
    · exact ⟨hb, hat.value_within.1, hat.value_within.2.2⟩

private theorem pairwise_marks : k.marks.Pairwise fun p q => p.extent.stop ≤ q.extent.start := by
  rcases marks_cases hk with hnone | hone | ⟨key, value, e, f, a, b, hat, -, -, hboth⟩
  · rw [hnone]
    exact .nil
  · rw [hone]
    exact List.pairwise_singleton _ _
  · -- The colon stands between the key and the value.
    obtain ⟨gap, hcolon, -⟩ := hat.colon
    rw [hboth]
    refine List.pairwise_pair.mpr (Nat.le_of_not_lt fun hlt => ?_)
    rw [Document.slice_eq_nil (Nat.le_of_lt hlt)] at hcolon
    cases hcolon

end KindedLine

namespace Document

variable (d : Document)

private theorem nodup_kindedLines : d.kindedLines.Nodup :=
  d.kindedLines_sorted.imp fun hlt he => by simp [he] at hlt

private theorem kindedLines_apart :
    d.kindedLines.Pairwise fun k m => k.line.nextStart ≤ m.line.start := by
  rw [List.pairwise_iff_getElem]
  intro i j hi hj hij
  have hupper := d.line_at (d.kindedLine_at (List.getElem?_eq_getElem hi)).1
  have hlower := d.line_at (d.kindedLine_at (List.getElem?_eq_getElem hj)).1
  rw [hupper.2.2.1, hlower.2.1]
  exact d.rowStart_mono (by omega)

theorem apart_of_ne {d : Document} {k m : KindedLine} (hk : k ∈ d.kindedLines) (hm : m ∈ d.kindedLines)
    (hne : k ≠ m) : k.line.nextStart ≤ m.line.start ∨ m.line.nextStart ≤ k.line.start := by
  have hapart := List.pairwise_iff_getElem.mp d.kindedLines_apart
  obtain ⟨i, hi, rfl⟩ := List.mem_iff_getElem.mp hk
  obtain ⟨j, hj, rfl⟩ := List.mem_iff_getElem.mp hm
  rcases Nat.lt_trichotomy i j with hij | rfl | hji
  · exact .inl (hapart i j hi hj hij)
  · exact absurd rfl hne
  · exact .inr (hapart j i hj hi hji)

def linesOf (b : Block) : List KindedLine :=
  d.kindedLines.filter fun k => b.containsLine k.line.number

variable {d} {i : Nat} {s t : Section}

theorem linesOf_ofSection (hs : d.sections[i]? = some s) (ht : d.sections[i + 1]? = some t) :
    d.linesOf (.ofSection s t.head) = s.head :: (s.body ++ [t.head]) := by
  obtain ⟨pre, post, hrun⟩ := Section.exists_run hs ht
  have hsorted := d.kindedLines_sorted
  rw [hrun, List.pairwise_append, List.pairwise_append] at hsorted
  obtain ⟨-, ⟨hown, -, hpost⟩, hpre⟩ := hsorted
  obtain ⟨hfirst, hrest⟩ := List.pairwise_cons.mp hown
  have hlast := (List.pairwise_append.mp hrest).2.2
  have hin (k : KindedLine) : (Block.ofSection s t.head).containsLine k.line.number = true ↔
      s.head.line.number ≤ k.line.number ∧ k.line.number ≤ t.head.line.number := by
    simp [Block.containsLine, Block.ofSection, KindedLine.asDelimiter]
  have hends : s.head.line.number < t.head.line.number := hfirst t.head (by simp)
  rw [linesOf, hrun, List.filter_append, List.filter_append, List.filter_eq_nil_iff.mpr,
    List.filter_eq_self.mpr, List.filter_eq_nil_iff.mpr, List.nil_append, List.append_nil]
  · intro k hk
    have hafter := hpost t.head (by simp) k hk
    rw [hin]
    omega
  · intro k hk
    rw [hin]
    rcases List.mem_cons.mp hk with rfl | hk
    · omega
    · have hbelow := hfirst k hk
      rcases List.mem_append.mp hk with hbody | hclose
      · have habove := hlast k hbody t.head (by simp)
        omega
      · rw [List.mem_singleton.mp hclose] at hbelow ⊢
        omega
  · intro k hk
    have hbefore := hpre k hk s.head (by simp)
    rw [hin]
    omega

end Document

namespace Block

private theorem flatMap_marks_perm {ks : List KindedLine} (h : ∀ k ∈ ks, k.isDelimiter = false) :
    (ks.flatMap KindedLine.marks).Perm
      ((ks.filterMap fun k => k.kind.declaration?).flatMap Declaration.spans ++
        (ks.filterMap fun k => k.kind.entry?).flatMap Entry.spans) := by
  rw [List.flatMap_congr fun k hk => KindedLine.marks_of_not_isDelimiter (h k hk),
    List.filterMap_eq_flatMap_toList, List.filterMap_eq_flatMap_toList, List.flatMap_assoc,
    List.flatMap_assoc]
  exact (List.flatMap_append_perm _ _ _).symm

variable {r : DetectionRules} {d : Document} {b : Block}

private theorem spans_perm (h : b ∈ (Detection.ofDocument r d).blocks) :
    b.spans.Perm ((d.linesOf b).flatMap fun k => k.background :: k.marks) := by
  obtain ⟨i, s, t, hs, ht, -, rfl⟩ := exists_sections h
  have hhead {j : Nat} {u : Section} (hu : d.sections[j]? = some u) :
      u.head.marks = [u.head.asDelimiter.span] := by
    have hmem : u.head ∈ d.delimiterLines := by
      rw [← d.map_head_sections]
      exact List.mem_map_of_mem (List.mem_of_getElem? hu)
    exact KindedLine.marks_of_isDelimiter (List.mem_filter.mp hmem).2
  obtain ⟨-, -, -, -, hbody, -⟩ := Document.exists_split hs
  rw [Document.linesOf_ofSection hs ht]
  calc (ofSection s t.head).spans
      = (s.head :: (s.body ++ [t.head])).map KindedLine.background ++
          ([s.head.asDelimiter.span] ++ ([t.head.asDelimiter.span] ++
            ((s.body.filterMap fun k => k.kind.declaration?).flatMap Declaration.spans ++
              (s.body.filterMap fun k => k.kind.entry?).flatMap Entry.spans))) := by
        simp [spans, ofSection, KindedLine.background]
    _ |>.Perm ((s.head :: (s.body ++ [t.head])).map KindedLine.background ++
          ([s.head.asDelimiter.span] ++
            (s.body.flatMap KindedLine.marks ++ [t.head.asDelimiter.span]))) := by
        refine .append_left _ (.append_left _ ?_)
        exact List.perm_append_comm.trans ((flatMap_marks_perm hbody).symm.append_right _)
    _ = (s.head :: (s.body ++ [t.head])).flatMap (fun k => [k.background]) ++
          (s.head :: (s.body ++ [t.head])).flatMap KindedLine.marks := by
        rw [List.map_eq_flatMap]
        simp [hhead hs, hhead ht]
    _ |>.Perm ((s.head :: (s.body ++ [t.head])).flatMap fun k => k.background :: k.marks) :=
        List.flatMap_append_perm _ _ _

end Block

namespace Detection

def covers (x : Detection) (k : KindedLine) : Bool :=
  x.blocks.any fun b => b.containsLine k.line.number

def strands (x : Detection) (k : KindedLine) : Bool := k.asDelimiter ∈ x.orphans

/-- What is shown of a line: in a block its background and its marks, of an orphan its one mark, and
nothing of other lines. Empty spans are left out. -/
def lineSpans (x : Detection) (k : KindedLine) : List Span :=
  ((if x.covers k then k.background :: k.marks else []) ++
    if x.strands k then [k.asDelimiter.span] else []).filter fun p => !p.extent.isEmpty

variable (r : DetectionRules) (d : Document)

private theorem flatMap_linesOf_perm : ((ofDocument r d).blocks.flatMap d.linesOf).Perm
    (d.kindedLines.filter (ofDocument r d).covers) := by
  refine (List.perm_ext_iff_of_nodup ?_ (d.nodup_kindedLines.filter _)).mpr fun k => ?_
  · refine List.nodup_flatMap.mpr ⟨fun b _ => d.nodup_kindedLines.filter _, ?_⟩
    refine (blocks_sorted r d).2.imp fun {a b} hab k ha hb => ?_
    have hupper := (List.mem_filter.mp ha).2
    have hlower := (List.mem_filter.mp hb).2
    simp only [Block.containsLine, Bool.and_eq_true, decide_eq_true_eq] at hupper hlower
    omega
  · simp only [List.mem_flatMap, Document.linesOf, List.mem_filter, covers, List.any_eq_true]
    constructor
    · rintro ⟨b, hb, hk, hin⟩
      exact ⟨hk, b, hb, hin⟩
    · rintro ⟨hk, b, hb, hin⟩
      exact ⟨b, hb, hk, hin⟩

private theorem map_asDelimiter_perm :
    ((d.kindedLines.filter (ofDocument r d).strands).map KindedLine.asDelimiter).Perm
      (ofDocument r d).orphans := by
  have hlines : ((d.kindedLines.filter (ofDocument r d).strands).map KindedLine.asDelimiter).Nodup :=
    List.pairwise_map.mpr ((d.kindedLines_sorted.filter _).imp fun hlt he =>
      Nat.ne_of_lt hlt (congrArg Delimiter.line he))
  have horphans : (ofDocument r d).orphans.Nodup := (List.nodup_append.mp (nodup_delimiters r d)).2.1
  refine (List.perm_ext_iff_of_nodup hlines horphans).mpr fun e => ?_
  simp only [List.mem_map, List.mem_filter, strands, decide_eq_true_eq]
  constructor
  · rintro ⟨k, ⟨-, hk⟩, rfl⟩
    exact hk
  · intro he
    obtain ⟨k, hk, rfl⟩ := exists_line_of_mem_delimiters (List.mem_append_right _ he)
    exact ⟨k, ⟨hk, he⟩, rfl⟩

private theorem line_le_of_getLast? {d : Document} {o : KindedLine}
    (ho : d.delimiterLines.getLast? = some o) {e : Delimiter}
    (he : e ∈ d.delimiterLines.map KindedLine.asDelimiter) :
    e.line ≤ o.line.number := by
  obtain ⟨init, hinit⟩ := List.getLast?_eq_some_iff.mp ho
  have hsorted := d.delimiterLines_sorted
  obtain ⟨k, hk, rfl⟩ := List.mem_map.mp he
  rw [hinit] at hsorted hk
  rcases List.mem_append.mp hk with hk | hk
  · exact Nat.le_of_lt ((List.pairwise_append.mp hsorted).2.2 k hk o List.mem_cons_self)
  · rw [List.mem_singleton.mp hk]
    exact Nat.le_refl _

/-- No block holds an orphan: blocks end by the last delimiter line, which is the orphan's own. -/
theorem not_covers_of_strands {k : KindedLine} (h : (ofDocument r d).strands k = true) :
    (ofDocument r d).covers k = false := by
  rw [strands, decide_eq_true_eq] at h
  refine List.any_eq_false.mpr fun b hb hin => ?_
  simp only [Block.containsLine, Bool.and_eq_true, decide_eq_true_eq] at hin
  obtain ⟨o, hlast, horphan⟩ := (orphans_ofDocument r d).resolve_left (List.ne_nil_of_mem h)
  have hk : k.asDelimiter = o.asDelimiter := by simpa [horphan] using h
  have hclosing : b.closing ∈ d.delimiterLines.map KindedLine.asDelimiter := by
    refine (perm_delimiters_ofDocument r d).mem_iff.mp ?_
    simp only [delimiters, List.mem_append]
    exact .inl (.inl (.inr (List.mem_map_of_mem hb)))
  have hle := line_le_of_getLast? hlast hclosing
  have hline : k.line.number = o.line.number := congrArg Delimiter.line hk
  have hsame : b.closing = o.asDelimiter :=
    eq_of_line_eq (delimiters_sorted d) hclosing
      (List.mem_map_of_mem (List.mem_of_getLast? hlast)) (show b.closing.line = o.line.number by omega)
  -- No delimiter closes a block and is an orphan as well.
  refine (List.nodup_append.mp (nodup_delimiters r d)).2.2 b.closing ?_ k.asDelimiter h
    (hsame.trans hk.symm)
  simp only [List.mem_append]
  exact .inl (.inr (List.mem_map_of_mem hb))

end Detection

namespace Decoration

theorem flatMap_ite {α β : Type} (xs : List α) (test : α → Bool) (f : α → List β) :
    (xs.flatMap fun x => if test x then f x else []) = (xs.filter test).flatMap f := by
  induction xs with
  | nil => rfl
  | cons x xs ih =>
    by_cases hx : test x
    · simp [hx, ih]
    · simp [hx, ih]

variable (r : DetectionRules) (d : Document)

private theorem gathered_perm :
    (((Detection.ofDocument r d).blocks.flatMap Block.spans ++
      (Detection.ofDocument r d).orphans.map Delimiter.span).filter fun p => !p.extent.isEmpty).Perm
      (d.kindedLines.flatMap (Detection.ofDocument r d).lineSpans) := by
  have hblocks : ((Detection.ofDocument r d).blocks.flatMap Block.spans).Perm
      ((d.kindedLines.filter (Detection.ofDocument r d).covers).flatMap
        fun k => k.background :: k.marks) := by
    refine (List.Perm.flatMap_left _ fun b hb => Block.spans_perm hb).trans ?_
    rw [← List.flatMap_assoc]
    exact (Detection.flatMap_linesOf_perm r d).flatMap_right _
  have horphans : ((Detection.ofDocument r d).orphans.map Delimiter.span).Perm
      ((d.kindedLines.filter (Detection.ofDocument r d).strands).flatMap
        fun k => [k.asDelimiter.span]) := by
    refine ((Detection.map_asDelimiter_perm r d).map Delimiter.span).symm.trans ?_
    rw [List.map_map, List.map_eq_flatMap]
    exact .refl _
  have hlines := (hblocks.append horphans).filter fun p => !p.extent.isEmpty
  rw [← flatMap_ite, ← flatMap_ite] at hlines
  refine hlines.trans (((List.flatMap_append_perm _ _ _).filter _).trans ?_)
  rw [List.filter_flatMap]
  exact .refl _

end Decoration

namespace Span

/-- How a span stands to a later one: it ends before that one starts, or it is a line and that one a
mark on it. -/
def Nests (p q : Span) : Prop :=
  p.extent.stop ≤ q.extent.start ∨
    p.scope = .line ∧ q.scope = .mark ∧ p.extent.start ≤ q.extent.start ∧
      q.extent.stop ≤ p.extent.stop

variable {p q : Span}

private theorem precedes_of_nests (hp : p.extent.start < p.extent.stop) (h : p.Nests q) :
    p.precedes q = true := by
  rcases h with hpast | ⟨hline, hmark, hstart, -⟩
  · exact (precedes_iff p q).mpr (.inl (by omega))
  · exact line_precedes_mark hline hmark hstart

theorem Nests.before_of_line (h : p.Nests q) (hq : q.scope = .line) :
    p.extent.stop ≤ q.extent.start := by
  rcases h with hpast | ⟨-, hmark, -⟩
  · exact hpast
  · rw [hq] at hmark
    cases hmark

theorem Nests.before_of_mark (h : p.Nests q) (hp : p.scope = .mark) :
    p.extent.stop ≤ q.extent.start := by
  rcases h with hpast | ⟨hline, -⟩
  · exact hpast
  · rw [hp] at hline
    cases hline

end Span

namespace Detection

private theorem delimiter_nonempty {r : DetectionRules} {d : Document} {e : Delimiter}
    (h : e ∈ (ofDocument r d).delimiters) : e.extent.start < e.extent.stop := by
  obtain ⟨k, hk, rfl⟩ := List.mem_map.mp ((perm_delimiters_ofDocument r d).mem_iff.mp h)
  obtain ⟨hmem, hdelimiter⟩ := List.mem_filter.mp hk
  rw [KindedLine.isDelimiter, decide_eq_true_eq, Document.kind_eq_ofLine hmem,
    LineKind.ofLine_eq_delimiter_iff, LineKind.isDelimiterText_iff] at hdelimiter
  obtain ⟨n, trail, hn, htext, -⟩ := hdelimiter
  have hlength := congrArg List.length htext
  rw [List.length_append, List.length_replicate] at hlength
  change k.line.start < k.line.start + k.line.text.length
  omega

variable (r : DetectionRules) {d : Document} {k : KindedLine} (hk : k ∈ d.kindedLines)
include hk

theorem lineSpans_cases :
    (ofDocument r d).covers k = true ∧ (ofDocument r d).lineSpans k =
        k.background :: k.marks.filter (fun p => !p.extent.isEmpty) ∨
      (ofDocument r d).covers k = false ∧ ((ofDocument r d).strands k = true ∧
          (ofDocument r d).lineSpans k = [k.asDelimiter.span] ∨
        (ofDocument r d).strands k = false ∧ (ofDocument r d).lineSpans k = []) := by
  unfold lineSpans
  by_cases hcovers : (ofDocument r d).covers k = true
  · have hstrands : ¬(ofDocument r d).strands k = true := by
      intro hstrands
      exact Bool.false_ne_true ((not_covers_of_strands r d hstrands).symm.trans hcovers)
    have hline : k.background.extent.isEmpty = false := by
      obtain ⟨i, hi⟩ := List.mem_iff_getElem?.mp hk
      obtain ⟨-, -, -, hlt, -⟩ := d.line_at (d.kindedLine_at hi).1
      exact decide_eq_false (Nat.not_le_of_lt hlt)
    refine .inl ⟨hcovers, ?_⟩
    rw [if_pos hcovers, if_neg hstrands, List.append_nil, List.filter_cons_of_pos (by simp [hline])]
  · refine .inr ⟨by simpa using hcovers, ?_⟩
    rw [if_neg hcovers]
    by_cases hstrands : (ofDocument r d).strands k = true
    · have hmark : k.asDelimiter.span.extent.isEmpty = false := by
        rw [strands, decide_eq_true_eq] at hstrands
        exact decide_eq_false (Nat.not_le_of_lt (delimiter_nonempty (List.mem_append_right _ hstrands)))
      refine .inl ⟨hstrands, ?_⟩
      rw [if_pos hstrands, List.nil_append, List.filter_cons_of_pos (by simp [hmark]), List.filter_nil]
    · refine .inr ⟨by simpa using hstrands, ?_⟩
      rw [if_neg hstrands]
      rfl

theorem span_on_line {p : Span} (h : p ∈ (ofDocument r d).lineSpans k) :
    p.extent.start < p.extent.stop ∧ k.line.start ≤ p.extent.start ∧
      p.extent.stop ≤ k.line.nextStart := by
  have hnonempty : p.extent.start < p.extent.stop := by
    have hshown := (List.mem_filter.mp h).2
    simpa [Extent.isEmpty] using hshown
  have hnext := Document.stop_le_nextStart hk
  refine ⟨hnonempty, ?_⟩
  rcases lineSpans_cases r hk with ⟨-, hblock⟩ | ⟨-, ⟨-, horphan⟩ | ⟨-, hnone⟩⟩
  · rw [hblock] at h
    rcases List.mem_cons.mp h with rfl | h
    · exact ⟨Nat.le_refl _, Nat.le_refl _⟩
    · obtain ⟨-, hstart, hstop⟩ := KindedLine.mark_on_line hk (List.mem_filter.mp h).1
      exact ⟨hstart, Nat.le_trans hstop hnext⟩
  · rw [horphan, List.mem_singleton] at h
    rw [h]
    exact ⟨Nat.le_refl _, hnext⟩
  · simp [hnone] at h

private theorem pairwise_lineSpans : ((ofDocument r d).lineSpans k).Pairwise Span.Nests := by
  rcases lineSpans_cases r hk with ⟨-, hblock⟩ | ⟨-, ⟨-, horphan⟩ | ⟨-, hnone⟩⟩
  · rw [hblock]
    refine List.pairwise_cons.mpr ⟨fun p hp => ?_, ?_⟩
    · obtain ⟨hmark, hstart, hstop⟩ := KindedLine.mark_on_line hk (List.mem_filter.mp hp).1
      exact .inr ⟨rfl, hmark, hstart, Nat.le_trans hstop (Document.stop_le_nextStart hk)⟩
    · exact ((KindedLine.pairwise_marks hk).filter _).imp .inl
  · rw [horphan]
    exact List.pairwise_singleton _ _
  · rw [hnone]
    exact .nil

end Detection

namespace Decoration

variable (r : DetectionRules) (d : Document)

theorem pairwise_flatMap_lineSpans :
    (d.kindedLines.flatMap (Detection.ofDocument r d).lineSpans).Pairwise Span.Nests := by
  refine List.pairwise_flatMap.mpr ⟨fun k hk => Detection.pairwise_lineSpans r hk, ?_⟩
  refine d.kindedLines_apart.imp_of_mem fun {k m} hk hm hapart p hp q hq => .inl ?_
  obtain ⟨-, -, hstop⟩ := Detection.span_on_line r hk hp
  obtain ⟨-, hstart, -⟩ := Detection.span_on_line r hm hq
  exact Nat.le_trans hstop (Nat.le_trans hapart hstart)

/-- The decoration of a document is what its lines show, one line after the other. -/
theorem ofDetection_eq_flatMap_lineSpans :
    ofDetection (Detection.ofDocument r d) ⟨0, d.length⟩ =
      d.kindedLines.flatMap (Detection.ofDocument r d).lineSpans := by
  have hshown : ∀ p ∈ (Detection.ofDocument r d).blocks.flatMap Block.spans ++
      (Detection.ofDocument r d).orphans.map Delimiter.span,
      isShown ⟨0, d.length⟩ p = !p.extent.isEmpty := by
    intro p hp
    have hstop : p.extent.stop ≤ d.length := by
      rcases List.mem_append.mp hp with hp | hp
      · obtain ⟨b, hb, hp⟩ := List.mem_flatMap.mp hp
        exact Block.spans_stop_le hb hp
      · obtain ⟨e, he, rfl⟩ := List.mem_map.mp hp
        exact Detection.delimiter_stop_le (List.mem_append_right _ he)
    rw [Bool.eq_iff_iff]
    simp only [isShown, Span.intersects, Extent.isEmpty, Extent.overlaps, Bool.and_eq_true,
      Bool.not_eq_true', decide_eq_true_eq, decide_eq_false_iff_not]
    omega
  rw [ofDetection_eq, List.filter_congr hshown]
  refine eq_of_perm_of_ordered ((arrange_perm _).trans (gathered_perm r d)) (ordered_arrange _) ?_
  refine (pairwise_flatMap_lineSpans r d).imp_of_mem fun {p q} hp _ hnests => ?_
  obtain ⟨k, hk, hp⟩ := List.mem_flatMap.mp hp
  exact Span.precedes_of_nests (Detection.span_on_line r hk hp).1 hnests

end Decoration

end MetaBlocks
