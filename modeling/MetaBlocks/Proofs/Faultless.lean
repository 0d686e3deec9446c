import MetaBlocks.Decoration
import MetaBlocks.Folding
import MetaBlocks.Proofs.Bisection
import MetaBlocks.Proofs.Blocks
import MetaBlocks.Proofs.CursorContexts
import MetaBlocks.Proofs.Scanner

/-!
No request meets a fault. Completion steps back from the cursor over a carriage return and over what
was typed, decoration starts at the first visible block, and folding counts lines from zero. Each of
these is a subtraction or a slice that could fail, and none does on a text that fits in memory.
-/

set_option autoImplicit false
set_option relaxedAutoImplicit false

namespace MetaBlocks

namespace Checked

def nameByte (k : Keyword) (s : List Char) : Nat :=
  Text.byteLength (s.takeWhile Text.isBlank) + Text.byteLength (k.word ++ [':']) +
    Text.byteLength (((Text.trimStart s).drop (k.word.length + 1)).takeWhile Text.isBlank)

/-- Where the name on a line ends; a cursor after the last line has no line. -/
def nameEnd (d : Document) (number cursor : Nat) : Except Fault Nat := do
  match ← line d number with
  | some l => add l.start (Text.trimEnd l.text).length
  | none => return cursor

def context (d : Document) (cursor : Nat) : Except Fault (Option CompletionContext) := do
  let cursor := d.clamp cursor
  let (number, row) ← beforeCursor d cursor
  let before := CompletionContext.dropReturn row
  let cursor ← sub cursor (← sub (Text.byteLength row) (Text.byteLength before))
  match CompletionContext.keywordPrefix? before with
  | none => return none
  | some (keyword, _) =>
    let typed ← sliceBytes before (nameByte keyword before) (Text.byteLength before)
    let start ← sub cursor typed.length
    let stop ← nameEnd d number cursor
    return some ⟨keyword, number, typed, ⟨start, max stop cursor⟩⟩

/-- The blocks that meet a viewport, as a slice of all blocks. -/
def visibleBlocks (blocks : List Block) (viewport : Extent) : Except Fault (List Block) := do
  let first := if viewport.isEmpty then blocks.length
    else Bisect.partitionPoint (fun b => b.extent.stop ≤ viewport.start) blocks
  let rest ← slice blocks ⟨first, blocks.length⟩
  return rest.takeWhile fun b => b.extent.start < viewport.stop

def foldRegions (placeholder : List Char) (blocks : List Block) : Except Fault (List FoldRegion) :=
  blocks.mapM fun b => do
    return ⟨← sub b.opening.line 1, ← sub b.closing.line 1, false, placeholder⟩

def bodyLineCount (f : Fold) : Except Fault Nat := return f.endLine - (← add f.startLine 1)

private theorem byteLength_dropReturn (u : List Char) :
    Text.byteLength u = Text.byteLength (CompletionContext.dropReturn u) +
      (u.length - (CompletionContext.dropReturn u).length) := by
  rcases CompletionContext.dropReturn_cases u with ⟨hsame, -⟩ | hreturn
  · rw [hsame, Nat.sub_self, Nat.add_zero]
  · have hone : Text.byteLength ['\r'] = 1 := by decide
    have hlen := congrArg List.length hreturn
    have hbytes := congrArg Text.byteLength hreturn
    rw [List.length_append, List.length_singleton] at hlen
    rw [Text.byteLength_append, hone] at hbytes
    omega

private theorem sliceBytes_nameByte {s typed : List Char} {k : Keyword}
    (h : CompletionContext.keywordPrefix? s = some (k, typed)) :
    sliceBytes s (nameByte k s) (Text.byteLength s) = pure typed := by
  obtain ⟨indent, rest, hindent, hs, rfl⟩ := CompletionContext.keywordPrefix?_eq_some_iff.mp h
  have hsplit : s = (indent ++ (k.word ++ [':']) ++ rest.takeWhile Text.isBlank) ++
      Text.trimStart rest := by
    rw [hs]
    simp [Text.takeWhile_append_trimStart]
  have hname : nameByte k s =
      Text.byteLength (indent ++ (k.word ++ [':']) ++ rest.takeWhile Text.isBlank) := by
    have hhead := LineKind.isBlank_of_head?_word k (':' :: rest)
    have hdrop : (k.word ++ ':' :: rest).drop (k.word.length + 1) = rest := by
      rw [List.drop_length_add_append, List.drop_one, List.tail_cons]
    simp only [nameByte, hs, Text.takeWhile_isBlank_append hindent hhead,
      Text.trimStart_append hindent hhead, hdrop, Text.byteLength_append]
  refine sliceBytes_eq_iff.mpr ⟨_, [], ?_, hname.symm, ?_⟩
  · rw [List.append_nil]
    exact hsplit
  · rw [hname, ← Text.byteLength_append, ← hsplit]

section Requests

variable {d : Document}

private theorem nameEnd_eq (hfits : d.Fits) (number cursor : Nat) :
    nameEnd d number cursor =
      pure (((d.line? number).map fun l => l.start + (Text.trimEnd l.text).length).getD cursor) := by
  rw [nameEnd, line_eq hfits, pure_bind]
  cases hline : d.line? number with
  | none => rfl
  | some l =>
    have hmem : l ∈ d.lines := by
      cases number with
      | zero => cases hline
      | succ n => exact List.mem_of_getElem? hline
    have hstop := stop_lt hfits hmem
    obtain ⟨trail, htrail, -⟩ := Text.exists_append_trimEnd l.text
    have hlength := congrArg List.length htrail
    rw [List.length_append] at hlength
    rw [Line.stop] at hstop
    exact add_eq (by omega)

private theorem context_eq (hfits : d.Fits) (cursor : Nat) :
    context d cursor = pure (CompletionContext.atCursor? d cursor) := by
  obtain ⟨p, q, s, htext, hp, hq, hclamp⟩ := d.exists_row_before cursor
  have hreclamp : d.clamp (p.length + q.length) = p.length + q.length := by
    rw [← hclamp]
    exact Nat.min_eq_left (Nat.min_le_right cursor _)
  have hbefore := Document.beforeCursor_eq htext hp hq hreclamp
  have hback := Document.backOverReturn_eq htext hp hclamp
  have hlength := CompletionContext.dropReturn_length_le q
  have hbytes := byteLength_dropReturn q
  -- A return is one byte and one character, so stepping back over bytes goes back by characters.
  have hdropped : sub (Text.byteLength q) (Text.byteLength (CompletionContext.dropReturn q)) =
      pure (q.length - (CompletionContext.dropReturn q).length) := by
    rw [sub_eq (by omega), hbytes, Nat.add_sub_cancel_left]
  have hcursor : sub (p.length + q.length) (q.length - (CompletionContext.dropReturn q).length) =
      pure (d.backOverReturn cursor) := by
    rw [sub_eq (by omega), hback]
    congr 1
    omega
  rw [CompletionContext.atCursor?_eq htext hp hq hclamp]
  simp only [context, hclamp, beforeCursor_eq hfits, hbefore, hdropped, hcursor, pure_bind]
  cases hfound : CompletionContext.keywordPrefix? (CompletionContext.dropReturn q) with
  | none => rfl
  | some x =>
    obtain ⟨k, typed⟩ := x
    have hslice := sliceBytes_nameByte hfound
    have htyped : typed.length ≤ d.backOverReturn cursor := by
      obtain ⟨u, v, hrow, -, -⟩ := sliceBytes_eq_iff.mp hslice
      have hrowLength := congrArg List.length hrow
      simp only [List.length_append] at hrowLength
      omega
    simp only [hslice, sub_eq htyped, nameEnd_eq hfits, pure_bind, Option.map_some]

private theorem visibleBlocks_eq (blocks : List Block) (viewport : Extent) :
    visibleBlocks blocks viewport = pure (Decoration.visibleBlocks blocks viewport) := by
  have hslice (n : Nat) (hn : n ≤ blocks.length) :
      slice blocks ⟨n, blocks.length⟩ = pure (blocks.drop n) := by
    rw [slice, if_pos ⟨hn, Nat.le_refl _⟩, List.take_length]
  by_cases hempty : viewport.isEmpty = true
  · rw [visibleBlocks, Decoration.visibleBlocks, if_pos hempty, if_pos hempty,
      hslice _ (Nat.le_refl _), pure_bind, List.drop_length, List.takeWhile_nil]
  · rw [visibleBlocks, Decoration.visibleBlocks, if_neg hempty, if_neg hempty,
      hslice _ (Bisect.partitionPoint_le_length _ _), pure_bind]

variable {r : DetectionRules}

private theorem foldRegions_eq (placeholder : List Char) :
    foldRegions placeholder (Detection.ofDocument r d).blocks =
      pure (FoldRegion.ofBlocks placeholder (Detection.ofDocument r d).blocks) := by
  refine mapM_eq fun b hb => ?_
  have hopening := Block.opening_pos hb
  have happart := (Block.wellFormed_of_mem hb).apart
  rw [sub_eq (by omega : 1 ≤ b.opening.line), sub_eq (by omega : 1 ≤ b.closing.line), pure_bind,
    pure_bind, FoldRegion.ofBlock]

private theorem bodyLineCount_eq (hfits : d.Fits) {b : Block}
    (hb : b ∈ (Detection.ofDocument r d).blocks) :
    bodyLineCount (.ofBlock b) = pure (Fold.ofBlock b).bodyLineCount := by
  obtain ⟨first, last, hfirst, -, -⟩ := (Block.wellFormed_of_mem hb).body
  have hopening : b.opening.line < d.lines.length := (List.getElem?_eq_some_iff.mp hfirst).1
  have hbound := lineCount_le hfits
  rw [← d.length_lines] at hbound
  have hadd : add (Fold.ofBlock b).startLine 1 = pure (b.opening.line + 1) :=
    add_eq (show b.opening.line + 1 < 2 ^ 64 by omega)
  rw [bodyLineCount, hadd, pure_bind, Fold.bodyLineCount, Fold.ofBlock]

end Requests

/-- On a text that fits in memory no request meets a fault, whatever the rules and for every line
number, cursor and viewport, and its answer is the one given by counting characters. -/
theorem runs_without_fault {d : Document} (hfits : d.Fits) (r : DetectionRules) :
    lineCount d = .ok d.lineCount ∧ lines d = .ok d.lines ∧
      (∀ number, line d number = .ok (d.line? number)) ∧
      (∀ cursor, beforeCursor d cursor = .ok (d.beforeCursor cursor)) ∧
      detect r d = .ok (.ofDocument r d) ∧
      (∀ cursor, context d cursor = .ok (CompletionContext.atCursor? d cursor)) ∧
      (∀ blocks viewport,
        visibleBlocks blocks viewport = .ok (Decoration.visibleBlocks blocks viewport)) ∧
      (∀ placeholder, foldRegions placeholder (Detection.ofDocument r d).blocks =
        .ok (FoldRegion.ofBlocks placeholder (Detection.ofDocument r d).blocks)) ∧
      ∀ b ∈ (Detection.ofDocument r d).blocks,
        bodyLineCount (.ofBlock b) = .ok (Fold.ofBlock b).bodyLineCount := by
  refine ⟨lineCount_eq, lines_eq hfits, line_eq hfits, beforeCursor_eq hfits, detect_eq hfits r,
    context_eq hfits, visibleBlocks_eq, foldRegions_eq, ?_⟩
  intro b hb
  exact bodyLineCount_eq hfits hb

theorem runs_without_fault_wideName :
    let d := Document.ofText "---\r\nSCOPE: na\u00efve\r\n---".toList
    d.Fits ∧ line d (2 ^ 64 - 1) = .ok none ∧
      context d 18 = .ok (some ⟨.scope, 2, "na\u00efve".toList, ⟨12, 17⟩⟩) ∧
      context d (2 ^ 64 - 1) = .ok none ∧
      detect {} d = .ok ⟨[⟨⟨1, ⟨0, 3⟩⟩, ⟨3, ⟨19, 22⟩⟩, ⟨2, 3⟩, ⟨5, 17⟩, [⟨0, 5⟩, ⟨5, 19⟩, ⟨19, 22⟩],
        [⟨.scope, 2, ⟨5, 10⟩, "na\u00efve".toList, ⟨12, 17⟩⟩], []⟩], [], []⟩ := by
  intro d
  have hfits : d.Fits := by decide
  obtain ⟨-, -, hline, -, hdetect, hcontext, -⟩ := runs_without_fault hfits {}
  refine ⟨hfits, (hline _).trans ?_, (hcontext _).trans ?_, (hcontext _).trans ?_, hdetect.trans ?_⟩
  · decide
  · decide
  · decide
  · decide

end Checked

end MetaBlocks
