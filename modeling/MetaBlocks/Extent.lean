/-!
Half-open ranges of character offsets or line numbers. An extent may be empty or reversed, as a
viewport typed by a user may be.
-/

set_option autoImplicit false
set_option relaxedAutoImplicit false

namespace MetaBlocks

/-- The positions from `start` up to, and without, `stop`. -/
structure Extent where
  start : Nat
  stop : Nat
  deriving DecidableEq, Repr, Inhabited

namespace Extent

def isEmpty (e : Extent) : Bool := e.stop ≤ e.start

/-- Each end precedes the other's: the test for a shared position when neither extent is empty. -/
def overlaps (a b : Extent) : Bool := a.start < b.stop && b.start < a.stop

def clamp (n : Nat) (e : Extent) : Extent := ⟨min e.start n, min e.stop n⟩

end Extent

end MetaBlocks
