import MetaBlocks.Completion
import MetaBlocks.Decoration
import MetaBlocks.Folding
import MetaBlocks.Settings

/-!
The engine answers every question about a document from its detection, and keeps the last detection
to answer the next question with. A kept detection serves a document of the same revision whose
text has the same digest. Nothing is said about the digest itself: an engine takes any function.
-/

set_option autoImplicit false
set_option relaxedAutoImplicit false

namespace MetaBlocks

structure DocumentKey where
  revision : Nat
  digest : UInt64
  deriving DecidableEq, Repr, Inhabited

inductive Lookup where
  | hit
  | miss
  deriving DecidableEq, Repr, Inhabited

structure Kept where
  key : DocumentKey
  detection : Detection
  deriving DecidableEq, Repr, Inhabited

/-- Settings with the last detection made under them. -/
structure Engine where
  settings : Settings
  /-- Fingerprint by which texts of one revision are told apart. -/
  digest : List Char → UInt64 := Text.digest
  kept : Option Kept := none
  lastLookup : Option Lookup := none
  deriving Inhabited

namespace Engine

def keyOf (e : Engine) (d : Document) : DocumentKey := ⟨d.revision, e.digest d.text⟩

/-- The kept detection if it serves the document. -/
def remembered? (e : Engine) (d : Document) : Option Detection :=
  match e.kept with
  | some k => if k.key = e.keyOf d then some k.detection else none
  | none => none

def detect (e : Engine) (d : Document) : Detection × Engine :=
  match e.remembered? d with
  | some x => (x, { e with lastLookup := some .hit })
  | none =>
    let x := Detection.ofDocument e.settings.detection d
    (x, { e with kept := some ⟨e.keyOf d, x⟩, lastLookup := some .miss })

def invalidate (e : Engine) : Engine := { e with kept := none }

/-- The spans in a viewport, which is first brought inside the document. -/
def decorate (e : Engine) (d : Document) (viewport : Extent) : List Span × Engine :=
  let (x, e) := e.detect d
  (Decoration.ofDetection x (viewport.clamp d.length), e)

def intervals (e : Engine) (d : Document) (viewport : Extent) : List Interval × Engine :=
  let (spans, e) := e.decorate d viewport
  (Interval.ofSpans e.settings.styles spans, e)

def foldAt? (e : Engine) (d : Document) (line : Nat) : Option Fold × Engine :=
  let (x, e) := e.detect d
  (Fold.atLine? line x.blocks, e)

def foldRegions (e : Engine) (d : Document) : List FoldRegion × Engine :=
  let (x, e) := e.detect d
  (FoldRegion.ofBlocks e.settings.folding.placeholder x.blocks, e)

def complete (e : Engine) (d : Document) (cursor : Nat) (catalog : Catalog) :
    List Candidate × Engine :=
  let (x, e) := e.detect d
  (Candidate.atCursor d cursor x.blocks catalog, e)

end Engine

end MetaBlocks
