import MetaBlocks.Detection
import MetaBlocks.Style

/-!
Settings of the engine. Every setting has a default.
-/

set_option autoImplicit false
set_option relaxedAutoImplicit false

namespace MetaBlocks

structure FoldingSettings where
  /-- Shown in place of a collapsed block. -/
  placeholder : List Char := "---…---".toList
  /-- Blocks that were collapsed stay so when fold regions are replaced. -/
  preserveCollapsed : Bool := true
  deriving DecidableEq, Repr, Inhabited

structure Settings where
  detection : DetectionRules := {}
  folding : FoldingSettings := {}
  styles : Styles := {}
  deriving DecidableEq, Repr, Inhabited

/-- A placeholder that would show nothing is of no use. -/
def Settings.isUsable (s : Settings) : Bool := !Text.isBlankText s.folding.placeholder

end MetaBlocks
