import MetaBlocks.Proofs.Checked
import MetaBlocks.Proofs.Sections

/-!
Detection as a scanner runs it: a machine of three states that steps through the indices of the
delimiter lines and reads lines and runs of lines by index. Every step brings the machine closer to
its end, no index and no slice is out of range, and the run gives the findings over sections.
-/

set_option autoImplicit false
set_option relaxedAutoImplicit false

namespace MetaBlocks

namespace Checked

private theorem exists_of_bind {α β : Type} {x : Except Fault α} {f : α → Except Fault β} {b : β}
    (h : x >>= f = .ok b) : ∃ a, x = .ok a ∧ f a = .ok b := by
  cases x with
  | error e => cases h
  | ok a => exact ⟨a, rfl, h⟩

private theorem eq_of_add {a b c : Nat} (h : add a b = .ok c) : c = a + b := by
  unfold add at h
  split at h
  · exact (Except.ok.inj h).symm
  · cases h

structure Scanner where
  rules : DetectionRules
  lines : List KindedLine

/-- What a scanner looks for; the numbers count delimiter lines. -/
inductive Scanner.State where
  | opener (next : Nat)
  | closer (opener : Nat)
  | done
  deriving DecidableEq

namespace Scanner

variable (m : Scanner)

def delimiters : List Nat := (m.lines.zipIdx.filter fun p => p.1.isDelimiter).map Prod.snd

def delimiterAt (i : Nat) : Except Fault Delimiter := return (← get m.lines i).asDelimiter

def qualifies (e : Extent) : Except Fault Bool :=
  return (← slice m.lines e).any KindedLine.qualifies

def isIsolated (n : Nat) : Except Fault Bool :=
  match m.delimiters[n]? with
  | none => return false
  | some i => do
    let above := if i = 0 then none else m.lines[i - 1]?
    let below ← add i 1
    if m.rules.blankAround above m.lines[below]? then
      let next ← add n 1
      return !(← m.qualifies ⟨below, m.delimiters[next]?.getD m.lines.length⟩)
    else return false

def block (i j : Nat) : Except Fault Block := do
  let body ← slice m.lines ⟨← add i 1, j⟩
  let opening ← m.delimiterAt i
  let closing ← m.delimiterAt j
  let whole ← slice m.lines ⟨i, ← add j 1⟩
  return {
    opening := opening
    closing := closing
    bodyLines := ⟨← add opening.line 1, closing.line⟩
    bodyExtent :=
      ⟨(body.head?.map (·.line.start)).getD opening.extent.stop,
        (body.getLast?.map (·.line.stop)).getD opening.extent.stop⟩
    lineExtents := whole.map KindedLine.fullExtent
    declarations := body.filterMap fun l => l.kind.declaration?
    entries := body.filterMap fun l => l.kind.entry? }

/-- Whether the next delimiter line is a rule by its neighbours, or may open a block. -/
def seekOpener (x : Detection) (next : Nat) : Except Fault (State × Detection) :=
  match m.delimiters[next]? with
  | none => return (.done, x)
  | some i => do
    if ← m.isIsolated next then
      let rule ← m.delimiterAt i
      return (.opener (← add next 1), { x with rules := x.rules ++ [rule] })
    else return (.closer next, x)

/-- What the delimiter line after an opener makes of it. -/
def seekCloser (x : Detection) (opener : Nat) : Except Fault (State × Detection) :=
  match m.delimiters[opener]? with
  | none => return (.done, x)
  | some i => do
    let closer ← add opener 1
    match m.delimiters[closer]? with
    | none =>
      let orphan ← m.delimiterAt i
      return (.done, { x with orphans := x.orphans ++ [orphan] })
    | some j =>
      if ← m.qualifies ⟨← add i 1, j⟩ then
        let block ← m.block i j
        return (.opener (← add opener 2), { x with blocks := x.blocks ++ [block] })
      else
        let rule ← m.delimiterAt i
        return (.opener (← add opener 1), { x with rules := x.rules ++ [rule] })

def step (x : Detection) : State → Except Fault (State × Detection)
  | .opener next => m.seekOpener x next
  | .closer opener => m.seekCloser x opener
  | .done => return (.done, x)

def remaining : State → Nat
  | .opener next => 2 * (m.delimiters.length - next) + 2
  | .closer opener => 2 * (m.delimiters.length - opener) + 1
  | .done => 0

variable {m} {x y : Detection} {s t : State}

private theorem remaining_seekOpener {next : Nat} (h : m.seekOpener x next = .ok (t, y)) :
    m.remaining t < m.remaining (.opener next) := by
  unfold seekOpener at h
  split at h
  next =>
    cases h
    exact Nat.succ_pos _
  next i hi =>
    have hnext := (List.getElem?_eq_some_iff.mp hi).1
    obtain ⟨isolated, -, h⟩ := exists_of_bind h
    split at h
    · obtain ⟨rule, -, h⟩ := exists_of_bind h
      obtain ⟨n, hn, h⟩ := exists_of_bind h
      cases h
      rw [eq_of_add hn, remaining, remaining]
      omega
    · cases h
      exact Nat.lt_succ_self _

private theorem remaining_seekCloser {opener : Nat} (h : m.seekCloser x opener = .ok (t, y)) :
    m.remaining t < m.remaining (.closer opener) := by
  unfold seekCloser at h
  split at h
  next =>
    cases h
    exact Nat.succ_pos _
  next i hi =>
    have hopener := (List.getElem?_eq_some_iff.mp hi).1
    obtain ⟨closer, hcloser, h⟩ := exists_of_bind h
    split at h
    next =>
      obtain ⟨orphan, -, h⟩ := exists_of_bind h
      cases h
      exact Nat.succ_pos _
    next j hj =>
      obtain ⟨body, -, h⟩ := exists_of_bind h
      obtain ⟨qualifies, -, h⟩ := exists_of_bind h
      split at h
      · obtain ⟨block, -, h⟩ := exists_of_bind h
        obtain ⟨n, hn, h⟩ := exists_of_bind h
        cases h
        rw [eq_of_add hn, remaining, remaining]
        omega
      · obtain ⟨rule, -, h⟩ := exists_of_bind h
        obtain ⟨n, hn, h⟩ := exists_of_bind h
        cases h
        rw [eq_of_add hn, remaining, remaining]
        omega

private theorem remaining_step (hs : s ≠ .done) (h : m.step x s = .ok (t, y)) :
    m.remaining t < m.remaining s := by
  cases s with
  | opener next => exact remaining_seekOpener h
  | closer opener => exact remaining_seekCloser h
  | done => exact absurd rfl hs

variable (m) in
def run (x : Detection) (s : State) : Except Fault Detection :=
  if _active : s = .done then pure x
  else
    match _taken : m.step x s with
    | .error fault => throw fault
    | .ok (t, y) => run y t
termination_by m.remaining s
decreasing_by exact remaining_step _active _taken

private theorem run_done : m.run x .done = pure x := by
  rw [run, dif_pos rfl]

private theorem run_step (hs : s ≠ .done) (h : m.step x s = pure (t, y)) :
    m.run x s = m.run y t := by
  rw [run, dif_neg hs]
  split
  next fault herror =>
    rw [h] at herror
    cases herror
  next t' y' hstep =>
    rw [h] at hstep
    cases hstep
    rfl

def ofDocument (r : DetectionRules) (d : Document) : Scanner := ⟨r, d.kindedLines⟩

@[simp] theorem rules_ofDocument (r : DetectionRules) (d : Document) :
    (ofDocument r d).rules = r := rfl

@[simp] theorem lines_ofDocument (r : DetectionRules) (d : Document) :
    (ofDocument r d).lines = d.kindedLines := rfl

section Document

variable {r : DetectionRules} {d : Document} {i : Nat} {a b : Section}

private theorem delimiters_getElem? (i : Nat) :
    (ofDocument r d).delimiters[i]? = d.sections[i]?.map fun a => a.head.line.number - 1 := by
  have hzip : d.kindedLines.zipIdx = d.kindedLines.map fun l => (l, l.line.number - 1) := by
    refine List.ext_getElem (by simp) fun n hn _ => ?_
    rw [List.length_zipIdx] at hn
    have hnumber := d.number_of_kindedLine_at (List.getElem?_eq_getElem hn)
    simp [hnumber]
  have hindices :
      (ofDocument r d).delimiters = d.delimiterLines.map fun l => l.line.number - 1 := by
    rw [delimiters, ofDocument, hzip, List.filter_map, List.map_map]
    rfl
  rw [hindices, List.getElem?_map, d.delimiterLines_getElem?, Option.map_map]
  rfl

variable (r d i a) in
/-- Where a section stands: `pre` are the lines before its head and `post` those after its body. -/
structure Place (pre post : List KindedLine) : Prop where
  lines : d.kindedLines = pre ++ a.head :: (a.body ++ post)
  above : a.above = pre.getLast?
  below : post.head? = d.sections[i + 1]?.map Section.head
  index : (ofDocument r d).delimiters[i]? = some pre.length
  next : (ofDocument r d).delimiters[i + 1]? =
    d.sections[i + 1]?.map fun _ => pre.length + 1 + a.body.length

private theorem exists_place (h : d.sections[i]? = some a) :
    ∃ pre post, Place r d i a pre post := by
  obtain ⟨pre, post, hlines, habove, -, hpost⟩ := Document.exists_split h
  have hhead : a.head.line.number = pre.length + 1 :=
    d.number_of_kindedLine_at (by rw [hlines]; simp)
  rw [d.delimiterLines_getElem?] at hpost
  refine ⟨pre, post, hlines, habove, hpost, ?_, ?_⟩
  · rw [delimiters_getElem?, h, Option.map_some, hhead, Nat.add_sub_cancel]
  · rw [delimiters_getElem?]
    cases hnext : d.sections[i + 1]? with
    | none => rfl
    | some b =>
      rw [hnext, Option.map_some] at hpost
      obtain ⟨rest, rfl⟩ := List.head?_eq_some_iff.mp hpost
      have hclose : b.head.line.number = (pre ++ a.head :: a.body).length + 1 :=
        d.number_of_kindedLine_at (by rw [hlines]; simp)
      rw [Option.map_some, Option.map_some, hclose, List.length_append, List.length_cons]
      congr 1
      omega

namespace Place

variable {pre post : List KindedLine} (p : Place r d i a pre post)

include p

private theorem slice_body :
    slice d.kindedLines ⟨pre.length + 1, pre.length + 1 + a.body.length⟩ = pure a.body := by
  have hlen : (pre ++ [a.head]).length = pre.length + 1 := by simp
  have hslice := slice_append (pre ++ [a.head]) a.body post
  rw [hlen, List.append_assoc, List.singleton_append, ← p.lines] at hslice
  exact hslice

private theorem section_end : ((ofDocument r d).delimiters[i + 1]?).getD d.kindedLines.length =
    pre.length + 1 + a.body.length := by
  rw [p.next]
  cases hnext : d.sections[i + 1]? with
  | some b => rfl
  | none =>
    have hpost : post = [] := by
      rw [← List.head?_eq_none_iff, p.below, hnext, Option.map_none]
    rw [Option.map_none, Option.getD_none, p.lines, hpost]
    simp only [List.length_append, List.length_cons, List.length_nil]
    omega

private theorem above_eq :
    (if pre.length = 0 then none else d.kindedLines[pre.length - 1]?) = a.above := by
  rw [p.above, p.lines, List.getLast?_eq_getElem?]
  split
  next hzero => rw [List.length_eq_zero_iff.mp hzero]; rfl
  next hpos => rw [List.getElem?_append_left (by omega)]

private theorem below_eq : d.kindedLines[pre.length + 1]? =
    a.body.head?.or (d.sections[i + 1]?.map Section.head) := by
  rw [← p.below, ← List.head?_append, p.lines, List.getElem?_append_right (by omega),
    Nat.add_sub_cancel_left, List.getElem?_cons_succ, List.head?_eq_getElem?]

private theorem bounds (hfits : d.Fits) :
    pre.length + 1 + a.body.length ≤ 2 ^ 63 ∧ i + 1 ≤ 2 ^ 63 := by
  have hlines : d.kindedLines.length ≤ 2 ^ 63 := by
    rw [Document.kindedLines, List.length_map, d.length_lines]
    exact lineCount_le hfits
  have hdelimiters : (ofDocument r d).delimiters.length ≤ d.kindedLines.length := by
    rw [delimiters, List.length_map, lines_ofDocument]
    refine Nat.le_trans (List.length_filter_le _ _) ?_
    rw [List.length_zipIdx]
  have hindex := (List.getElem?_eq_some_iff.mp p.index).1
  have hlength := congrArg List.length p.lines
  simp only [List.length_append, List.length_cons] at hlength
  omega

private theorem qualifies_eq :
    (ofDocument r d).qualifies ⟨pre.length + 1, pre.length + 1 + a.body.length⟩ =
      pure a.qualifies := by
  rw [qualifies, lines_ofDocument, p.slice_body, pure_bind]
  rfl

private theorem isIsolated_eq (hfits : d.Fits) :
    (ofDocument r d).isIsolated i = pure (r.isIsolated a d.sections[i + 1]?) := by
  have hbounds := p.bounds hfits
  rw [isIsolated, p.index, DetectionRules.isIsolated]
  simp only [rules_ofDocument, lines_ofDocument, add_eq (by omega : pre.length + 1 < 2 ^ 64),
    add_eq (by omega : i + 1 < 2 ^ 64), pure_bind, p.above_eq, p.below_eq, p.section_end,
    p.qualifies_eq]
  cases r.blankAround a.above (a.body.head?.or (d.sections[i + 1]?.map Section.head)) <;> rfl

private theorem delimiterAt_head :
    (ofDocument r d).delimiterAt pre.length = pure a.head.asDelimiter := by
  rw [delimiterAt, lines_ofDocument, p.lines, get_append, pure_bind]

private theorem lines_next (hnext : d.sections[i + 1]? = some b) :
    ∃ rest, d.kindedLines = pre ++ a.head :: (a.body ++ b.head :: rest) := by
  have hbelow := p.below
  rw [hnext, Option.map_some] at hbelow
  obtain ⟨rest, hpost⟩ := List.head?_eq_some_iff.mp hbelow
  exact ⟨rest, hpost ▸ p.lines⟩

private theorem delimiterAt_next (hnext : d.sections[i + 1]? = some b) :
    (ofDocument r d).delimiterAt (pre.length + 1 + a.body.length) = pure b.head.asDelimiter := by
  obtain ⟨rest, hlines⟩ := p.lines_next hnext
  have hget := get_append (pre ++ a.head :: a.body) b.head rest
  have hlen : (pre ++ a.head :: a.body).length = pre.length + 1 + a.body.length := by
    rw [List.length_append, List.length_cons]
    omega
  rw [hlen, List.append_assoc, List.cons_append, ← hlines] at hget
  rw [delimiterAt, lines_ofDocument, hget, pure_bind]

private theorem slice_block (hnext : d.sections[i + 1]? = some b) :
    slice d.kindedLines ⟨pre.length, pre.length + 1 + a.body.length + 1⟩ =
      pure (a.head :: (a.body ++ [b.head])) := by
  obtain ⟨rest, hlines⟩ := p.lines_next hnext
  have hslice := slice_append pre (a.head :: (a.body ++ [b.head])) rest
  have hlen : pre.length + (a.head :: (a.body ++ [b.head])).length =
      pre.length + 1 + a.body.length + 1 := by
    simp only [List.length_cons, List.length_append, List.length_nil]
    omega
  rw [hlen, List.cons_append, List.append_assoc, List.singleton_append, ← hlines] at hslice
  exact hslice

private theorem block_eq (hfits : d.Fits) (hnext : d.sections[i + 1]? = some b) :
    (ofDocument r d).block pre.length (pre.length + 1 + a.body.length) =
      pure (.ofSection a b.head) := by
  have hbounds := p.bounds hfits
  have hopening : a.head.asDelimiter.line = pre.length + 1 :=
    d.number_of_kindedLine_at (by rw [p.lines]; simp)
  simp only [block, lines_ofDocument, add_eq (by omega : pre.length + 1 < 2 ^ 64), p.slice_body,
    p.delimiterAt_head, p.delimiterAt_next hnext,
    add_eq (by omega : pre.length + 1 + a.body.length + 1 < 2 ^ 64), p.slice_block hnext,
    add_eq (by omega : a.head.asDelimiter.line + 1 < 2 ^ 64), pure_bind]
  rfl

private theorem step_opener (hfits : d.Fits) (x : Detection) :
    (ofDocument r d).step x (.opener i) =
      pure (if r.isIsolated a d.sections[i + 1]? then
        (.opener (i + 1), { x with rules := x.rules ++ [a.head.asDelimiter] })
      else (.closer i, x)) := by
  have hbounds := p.bounds hfits
  rw [step, seekOpener, p.index]
  simp only [p.isIsolated_eq hfits, p.delimiterAt_head, add_eq (by omega : i + 1 < 2 ^ 64),
    pure_bind]
  split <;> rfl

private theorem step_closer_last (hfits : d.Fits) (hnext : d.sections[i + 1]? = none)
    (x : Detection) : (ofDocument r d).step x (.closer i) =
      pure (.done, { x with orphans := x.orphans ++ [a.head.asDelimiter] }) := by
  have hbounds := p.bounds hfits
  have hlast : (ofDocument r d).delimiters[i + 1]? = none := by rw [p.next, hnext, Option.map_none]
  rw [step, seekCloser, p.index]
  simp only [add_eq (by omega : i + 1 < 2 ^ 64), hlast, p.delimiterAt_head, pure_bind]

private theorem step_closer (hfits : d.Fits) (hnext : d.sections[i + 1]? = some b) (x : Detection) :
    (ofDocument r d).step x (.closer i) =
      pure (if a.qualifies then
        (.opener (i + 2), { x with blocks := x.blocks ++ [.ofSection a b.head] })
      else (.opener (i + 1), { x with rules := x.rules ++ [a.head.asDelimiter] })) := by
  have hbounds := p.bounds hfits
  have hclosing : (ofDocument r d).delimiters[i + 1]? = some (pre.length + 1 + a.body.length) := by
    rw [p.next, hnext, Option.map_some]
  rw [step, seekCloser, p.index]
  simp only [add_eq (by omega : i + 1 < 2 ^ 64), add_eq (by omega : i + 2 < 2 ^ 64),
    add_eq (by omega : pre.length + 1 < 2 ^ 64), hclosing, p.qualifies_eq, p.block_eq hfits hnext,
    p.delimiterAt_head, pure_bind]
  split <;> rfl

end Place

private theorem run_past (h : d.sections[i]? = none) (x : Detection) :
    (ofDocument r d).run x (.opener i) = pure x := by
  have hstep : (ofDocument r d).step x (.opener i) = pure (.done, x) := by
    rw [step, seekOpener, delimiters_getElem?, h]
    rfl
  rw [run_step State.noConfusion hstep, run_done]

private theorem ofFindings_concat_rule (fs : List Finding) (e : Delimiter) (isolated : Bool) :
    Detection.ofFindings (fs ++ [.rule e isolated]) =
      { Detection.ofFindings fs with rules := (Detection.ofFindings fs).rules ++ [e] } := by
  simp [Detection.ofFindings, Finding.block?, Finding.orphan?, Finding.rule?]

private theorem ofFindings_concat_block (fs : List Finding) (b : Block) :
    Detection.ofFindings (fs ++ [.block b]) =
      { Detection.ofFindings fs with blocks := (Detection.ofFindings fs).blocks ++ [b] } := by
  simp [Detection.ofFindings, Finding.block?, Finding.orphan?, Finding.rule?]

private theorem ofFindings_concat_orphan (fs : List Finding) (e : Delimiter) :
    Detection.ofFindings (fs ++ [.orphan e]) =
      { Detection.ofFindings fs with orphans := (Detection.ofFindings fs).orphans ++ [e] } := by
  simp [Detection.ofFindings, Finding.block?, Finding.orphan?, Finding.rule?]

private theorem getElem?_of_drop {ss : List Section} (h : d.sections.drop i = a :: ss) :
    d.sections[i]? = some a ∧ d.sections.drop (i + 1) = ss := by
  constructor
  · rw [← List.head?_drop, h, List.head?_cons]
  · rw [← List.tail_drop, h, List.tail_cons]

private theorem isIsolated_eq_false (r : DetectionRules) (h : a.qualifies = true)
    (next : Option Section) : r.isIsolated a next = false := by
  rw [DetectionRules.isIsolated, h, Bool.not_true, Bool.and_false]

/-- From a delimiter line on, the scanner finds what the sections from there on give. -/
theorem run_opener (hfits : d.Fits) {ss : List Section} (hss : d.sections.drop i = ss)
    (fs : List Finding) :
    (ofDocument r d).run (.ofFindings fs) (.opener i) =
      pure (.ofFindings (fs ++ Section.findings r ss)) := by
  fun_induction Section.findings r ss generalizing i fs with
  | case1 =>
    rw [run_past (by rw [← List.head?_drop, hss, List.head?_nil]), List.append_nil]
  | case2 a hisolated =>
    obtain ⟨ha, hrest⟩ := getElem?_of_drop hss
    have hnext : d.sections[i + 1]? = none := by rw [← List.head?_drop, hrest, List.head?_nil]
    obtain ⟨pre, post, p⟩ := exists_place (r := r) ha
    have hstep := p.step_opener hfits (.ofFindings fs)
    rw [hnext, if_pos hisolated] at hstep
    rw [run_step State.noConfusion hstep, run_past hnext, ofFindings_concat_rule]
  | case3 a hisolated =>
    obtain ⟨ha, hrest⟩ := getElem?_of_drop hss
    have hnext : d.sections[i + 1]? = none := by rw [← List.head?_drop, hrest, List.head?_nil]
    obtain ⟨pre, post, p⟩ := exists_place (r := r) ha
    have hstep := p.step_opener hfits (.ofFindings fs)
    rw [hnext, if_neg hisolated] at hstep
    rw [run_step State.noConfusion hstep,
      run_step State.noConfusion (p.step_closer_last hfits hnext _), run_done,
      ofFindings_concat_orphan]
  | case4 a b rest hqualifies ih =>
    obtain ⟨ha, hrest⟩ := getElem?_of_drop hss
    obtain ⟨hnext, hrest⟩ := getElem?_of_drop hrest
    obtain ⟨pre, post, p⟩ := exists_place (r := r) ha
    have hopen := p.step_opener hfits (.ofFindings fs)
    rw [isIsolated_eq_false r hqualifies, if_neg Bool.false_ne_true] at hopen
    have hclose := p.step_closer hfits hnext (.ofFindings fs)
    rw [if_pos hqualifies, ← ofFindings_concat_block] at hclose
    rw [run_step State.noConfusion hopen, run_step State.noConfusion hclose, ih hrest,
      List.append_assoc, List.singleton_append]
  | case5 a b rest hqualifies ih =>
    obtain ⟨ha, hrest⟩ := getElem?_of_drop hss
    obtain ⟨hnext, -⟩ := getElem?_of_drop hrest
    obtain ⟨pre, post, p⟩ := exists_place (r := r) ha
    -- The delimiter is a rule, told by its neighbours or by the empty pair it would open.
    have hrule : (ofDocument r d).run (.ofFindings fs) (.opener i) =
        (ofDocument r d).run
          (.ofFindings (fs ++ [.rule a.head.asDelimiter (r.isIsolated a (some b))]))
          (.opener (i + 1)) := by
      have hopen := p.step_opener hfits (.ofFindings fs)
      have hclose := p.step_closer hfits hnext (.ofFindings fs)
      rw [hnext] at hopen
      rw [if_neg hqualifies] at hclose
      rw [ofFindings_concat_rule]
      by_cases hisolated : r.isIsolated a (some b) = true
      · rw [if_pos hisolated] at hopen
        exact run_step State.noConfusion hopen
      · rw [if_neg hisolated] at hopen
        rw [run_step State.noConfusion hopen, run_step State.noConfusion hclose]
    rw [hrule, ih hrest, List.append_assoc, List.singleton_append]

end Document

end Scanner

def detect (r : DetectionRules) (d : Document) : Except Fault Detection := do
  let lines ← kindedLines d
  (Scanner.mk r lines).run ⟨[], [], []⟩ (.opener 0)

theorem detect_eq {d : Document} (hfits : d.Fits) (r : DetectionRules) :
    detect r d = pure (.ofDocument r d) := by
  rw [detect, kindedLines_eq hfits, pure_bind]
  exact Scanner.run_opener hfits List.drop_zero []

end Checked

end MetaBlocks
