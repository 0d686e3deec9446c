import MetaBlocks.Section

/-!
Detection: which delimiters open and close blocks, which are horizontal rules, and which is an
opener that nothing closes.

Delimiters are taken in order. One whose section qualifies pairs with the next delimiter and both
are used up; one whose section does not qualify is a rule. The last delimiter has no partner: it
is a rule when its section does not qualify and its neighbouring lines are blank in the way the
rules ask for, and an orphan otherwise.
-/

set_option autoImplicit false
set_option relaxedAutoImplicit false

namespace MetaBlocks

/-- Which of the two neighbouring lines of a rule have to be blank. -/
inductive Neighbors where
  | both
  | either
  deriving DecidableEq, Repr, Inhabited

/-- How an unpaired delimiter is told from a horizontal rule. -/
structure DetectionRules where
  neighbors : Neighbors := .both
  /-- Whether a neighbour beyond the document's first or last line counts as blank. -/
  missingIsBlank : Bool := false
  deriving DecidableEq, Repr, Inhabited

namespace DetectionRules

def blankNeighbor (r : DetectionRules) : Option KindedLine → Bool
  | none => r.missingIsBlank
  | some l => l.isBlank

def blankAround (r : DetectionRules) (above below : Option KindedLine) : Bool :=
  match r.neighbors with
  | .both => r.blankNeighbor above && r.blankNeighbor below
  | .either => r.blankNeighbor above || r.blankNeighbor below

/-- A delimiter with blank neighbours and nothing that qualifies after it; `next` is the section
that follows, whose head is the line below when the body is empty. -/
def isIsolated (r : DetectionRules) (s : Section) (next : Option Section) : Bool :=
  r.blankAround s.above (s.body.head?.or (next.map (·.head))) && !s.qualifies

end DetectionRules

/-- What was decided about one delimiter, or about a pair. -/
inductive Finding where
  | rule (d : Delimiter) (isolated : Bool)
  | block (b : Block)
  | orphan (d : Delimiter)
  deriving DecidableEq, Repr, Inhabited

namespace Finding

def rule? : Finding → Option Delimiter
  | rule d _ => some d
  | _ => none

def block? : Finding → Option Block
  | block b => some b
  | _ => none

def orphan? : Finding → Option Delimiter
  | orphan d => some d
  | _ => none

end Finding

def Block.ofSection (s : Section) (close : KindedLine) : Block where
  opening := s.head.asDelimiter
  closing := close.asDelimiter
  bodyLines := ⟨s.head.line.number + 1, close.line.number⟩
  bodyExtent :=
    ⟨(s.body.head?.map (·.line.start)).getD s.head.line.stop,
      (s.body.getLast?.map (·.line.stop)).getD s.head.line.stop⟩
  lineExtents := (s.head :: (s.body ++ [close])).map KindedLine.fullExtent
  declarations := s.body.filterMap fun l => l.kind.declaration?
  entries := s.body.filterMap fun l => l.kind.entry?

namespace Section

def findings (r : DetectionRules) : List Section → List Finding
  | [] => []
  | [s] =>
    if r.isIsolated s none then [.rule s.head.asDelimiter true] else [.orphan s.head.asDelimiter]
  | s :: t :: rest =>
    if s.qualifies then .block (.ofSection s t.head) :: findings r rest
    else .rule s.head.asDelimiter (r.isIsolated s (some t)) :: findings r (t :: rest)

end Section

/-- The blocks, orphans and rules of a document, each list in document order. -/
structure Detection where
  blocks : List Block
  orphans : List Delimiter
  rules : List Delimiter
  deriving DecidableEq, Repr, Inhabited

namespace Detection

def ofFindings (fs : List Finding) : Detection :=
  ⟨fs.filterMap Finding.block?, fs.filterMap Finding.orphan?, fs.filterMap Finding.rule?⟩

def ofDocument (r : DetectionRules) (d : Document) : Detection :=
  ofFindings (Section.findings r d.sections)

/-- Neither a block nor an orphan was found. -/
def isEmpty (x : Detection) : Bool := x.blocks.isEmpty && x.orphans.isEmpty

end Detection

end MetaBlocks
