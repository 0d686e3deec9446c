/-!
Bisection of ordered lists. The search halves a window until one element is left and then looks at
that element, so its answer depends on the list's order, and equals that of a linear search when
the probe's answers are ordered along the list.
-/

set_option autoImplicit false
set_option relaxedAutoImplicit false

namespace MetaBlocks.Bisect

universe u

variable {α : Type u}

def probeAt (probe : α → Ordering) (xs : List α) (i : Nat) : Ordering :=
  match xs[i]? with
  | some x => probe x
  | none => .gt

/-- The start of the window of one element that halving `size` elements from `base` leads to. -/
def narrow (probe : α → Ordering) (xs : List α) (base size : Nat) : Nat :=
  if size ≤ 1 then base
  else
    let half := size / 2
    let mid := base + half
    narrow probe xs (if probeAt probe xs mid = .gt then base else mid) (size - half)
termination_by size
decreasing_by omega

/-- The index of an element that the probe finds equal, if the search meets one. -/
def find? (probe : α → Ordering) (xs : List α) : Option Nat :=
  let i := narrow probe xs 0 xs.length
  if probeAt probe xs i = .eq then some i else none

/-- The number of leading elements that satisfy a test which holds on a leading part only. -/
def partitionPoint (test : α → Bool) (xs : List α) : Nat :=
  let probe := fun x => if test x then Ordering.lt else .gt
  let i := narrow probe xs 0 xs.length
  if probeAt probe xs i = .lt then i + 1 else i

end MetaBlocks.Bisect
