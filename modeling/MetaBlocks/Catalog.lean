/-!
The catalog: the templates a host knows about, offered after the template keyword.
-/

set_option autoImplicit false
set_option relaxedAutoImplicit false

namespace MetaBlocks

structure Template where
  name : List Char
  description : Option (List Char) := none
  deriving DecidableEq, Repr, Inhabited

/-- Templates in the order they were listed; a name may occur more than once. -/
abbrev Catalog := List Template

end MetaBlocks
