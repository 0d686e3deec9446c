import MetaBlocks.Catalog
import MetaBlocks.Detection

/-!
Completion on keyword lines.

The text of the cursor's line up to the cursor has to start with a keyword and a colon. After
`SCOPE` the names that other lines gave to scopes are offered, after `QUILL` the templates of the
catalog; both in code point order and each name once. The candidates are not narrowed by what has
been typed: the host does that.
-/

set_option autoImplicit false
set_option relaxedAutoImplicit false

namespace MetaBlocks

/-- The keyword line that a completion request sits on. -/
structure CompletionContext where
  keyword : Keyword
  line : Nat
  /-- The part of the name before the cursor. -/
  typed : List Char
  /-- What an accepted candidate replaces: from the start of what was typed to the end of the name,
  and never less than up to the cursor. -/
  replaced : Extent
  deriving DecidableEq, Repr, Inhabited

namespace CompletionContext

/-- The keyword at the start of a text, and what follows the colon and its blanks. -/
def keywordPrefix? (s : List Char) : Option (Keyword × List Char) :=
  let s := Text.trimStart s
  let after? := fun k : Keyword =>
    if (k.word ++ [':']).isPrefixOf s then
      some (k, Text.trimStart (s.drop (k.word.length + 1)))
    else none
  (after? .scope).or (after? .quill)

def dropReturn (s : List Char) : List Char :=
  if s.getLast? = some '\r' then s.dropLast else s

/-- The context of a cursor. A cursor inside a line break counts as one at the end of its line. -/
def atCursor? (d : Document) (cursor : Nat) : Option CompletionContext := do
  let (line, beforeCursor) := d.beforeCursor cursor
  let before := dropReturn beforeCursor
  let cursor := d.clamp cursor - (beforeCursor.length - before.length)
  let (keyword, typed) ← keywordPrefix? before
  let nameEnd := match d.line? line with
    | some l => l.start + (Text.trimEnd l.text).length
    | none => cursor
  return ⟨keyword, line, typed, ⟨cursor - typed.length, max nameEnd cursor⟩⟩

end CompletionContext

inductive CandidateKind where
  | scope
  | template
  deriving DecidableEq, Repr, Inhabited

structure Candidate where
  label : List Char
  detail : Option (List Char)
  kind : CandidateKind
  deriving DecidableEq, Repr, Inhabited

namespace Candidate

def inOrder : List Char → List Char → Bool
  | [], _ => true
  | _ :: _, [] => false
  | a :: s, b :: t => a.toNat < b.toNat || a == b && inOrder s t

def dropRepeats : List Candidate → List Candidate
  | [] => []
  | a :: cs => match dropRepeats cs with
    | [] => [a]
    | b :: bs => if a.label = b.label then a :: bs else a :: b :: bs

/-- Candidates in order of their labels, each label once and the first to bear it kept. -/
def arrange (cs : List Candidate) : List Candidate :=
  dropRepeats (cs.mergeSort fun a b => inOrder a.label b.label)

/-- The names that declarations on other lines give to scopes. -/
def ofScopes (blocks : List Block) (cursorLine : Nat) : List Candidate :=
  arrange <| (blocks.flatMap (·.declarations)).filterMap fun d =>
    if d.keyword = .scope && d.line != cursorLine && !d.name.isEmpty then
      some ⟨d.name, none, .scope⟩
    else none

def ofCatalog (catalog : Catalog) : List Candidate :=
  arrange <| catalog.filterMap fun t =>
    if t.name.isEmpty then none else some ⟨t.name, t.description, .template⟩

def ofContext (c : CompletionContext) (blocks : List Block) (catalog : Catalog) : List Candidate :=
  match c.keyword with
  | .scope => ofScopes blocks c.line
  | .quill => ofCatalog catalog

/-- The candidates at a cursor; none outside keyword lines. -/
def atCursor (d : Document) (cursor : Nat) (blocks : List Block) (catalog : Catalog) :
    List Candidate :=
  match CompletionContext.atCursor? d cursor with
  | some c => ofContext c blocks catalog
  | none => []

end Candidate

end MetaBlocks
