import MetaBlocks.Bisect
import MetaBlocks.Detection

/-!
Folding: the lines and characters that hide when a block is collapsed, and the block around a
line. Blocks are searched by bisection, which their order allows.
-/

set_option autoImplicit false
set_option relaxedAutoImplicit false

namespace MetaBlocks

/-- What collapses with a block: its lines, and the characters after the opening delimiter's text
up to the end of the body. -/
structure Fold where
  startLine : Nat
  endLine : Nat
  hidden : Extent
  deriving DecidableEq, Repr, Inhabited

namespace Fold

def ofBlock (b : Block) : Fold :=
  ⟨b.opening.line, b.closing.line, ⟨b.opening.extent.stop, b.bodyExtent.stop⟩⟩

/-- Number of lines strictly between the delimiters. -/
def bodyLineCount (f : Fold) : Nat := f.endLine - (f.startLine + 1)

def atLine? (line : Nat) (blocks : List Block) : Option Fold := do
  let i ← Bisect.find? (fun b => compare b.opening.line line) blocks
  let b ← blocks[i]?
  return ofBlock b

end Fold

def Block.around? (line : Nat) (blocks : List Block) : Option Block :=
  blocks[Bisect.partitionPoint (fun b => b.closing.line < line) blocks]?.filter
    fun b => b.containsLine line

def Detection.blockAt? (x : Detection) (line : Nat) : Option Block := Block.around? line x.blocks

/-- A fold as a host keeps it: lines count from zero. -/
structure FoldRegion where
  startLine : Nat
  endLine : Nat
  isCollapsed : Bool
  placeholder : List Char
  deriving DecidableEq, Repr, Inhabited

namespace FoldRegion

def ofBlock (placeholder : List Char) (b : Block) : FoldRegion :=
  ⟨b.opening.line - 1, b.closing.line - 1, false, placeholder⟩

def ofBlocks (placeholder : List Char) (blocks : List Block) : List FoldRegion :=
  blocks.map (ofBlock placeholder)

def collapse (r : FoldRegion) : FoldRegion := { r with isCollapsed := true }

end FoldRegion

end MetaBlocks
