import MetaBlocks.Engine

/-!
The processor turns each document it is given into edits of a host's style layer and fold regions.
A document it has just processed needs no edits.
-/

set_option autoImplicit false
set_option relaxedAutoImplicit false

namespace MetaBlocks

inductive Edit where
  | replaceStyleLayer (layer : Nat) (intervals : List Interval)
  | clearStyleLayer (layer : Nat)
  | replaceFoldRegions (regions : List FoldRegion) (preserveCollapsed : Bool)
  | clearFoldRegions
  deriving DecidableEq, Repr, Inhabited

def Edit.metadataLayer : Nat := 6

inductive UpdateMode where
  | initial
  | fullRescan
  | skipped
  deriving DecidableEq, Repr, Inhabited

/-- An engine with the key of the document it processed last. -/
structure Processor where
  engine : Engine
  lastProcessed : Option DocumentKey := none
  lastMode : Option UpdateMode := none
  deriving Inhabited

namespace Processor

def ofSettings (s : Settings) : Processor := { engine := { settings := s } }

def edits (e : Engine) (d : Document) : List Edit × Engine :=
  let (x, e) := e.detect d
  if x.isEmpty then ([.clearStyleLayer Edit.metadataLayer, .clearFoldRegions], e)
  else
    let (intervals, e) := e.intervals d ⟨0, d.length⟩
    let (regions, e) := e.foldRegions d
    ([.replaceStyleLayer Edit.metadataLayer intervals,
      .replaceFoldRegions regions e.settings.folding.preserveCollapsed], e)

/-- The edits for a document; none when it is the one processed last. -/
def process (p : Processor) (d : Document) : List Edit × Processor :=
  if p.lastProcessed = some (p.engine.keyOf d) then ([], { p with lastMode := some .skipped })
  else
    let mode := if p.lastProcessed.isNone then UpdateMode.initial else .fullRescan
    let (edits, e) := edits p.engine d
    (edits, ⟨e, some (p.engine.keyOf d), some mode⟩)

def reset (p : Processor) : Processor :=
  { p with engine := p.engine.invalidate, lastProcessed := none }

end Processor

end MetaBlocks
