/-!
Numbers in plain text.
-/

set_option autoImplicit false
set_option relaxedAutoImplicit false

namespace MetaBlocks.Text

def decimal (n : Nat) : List Char := Nat.toDigits 10 n

def range (a b : Nat) : List Char := decimal a ++ ['.', '.'] ++ decimal b

end MetaBlocks.Text
