/-!
White space and trimming. A blank is a character with the Unicode White_Space property; the
information separators, the zero-width space and the byte order mark are not blank.
-/

set_option autoImplicit false
set_option relaxedAutoImplicit false

namespace MetaBlocks.Text

def isBlank (c : Char) : Bool :=
  let n := c.toNat
  n == 0x20 || (0x09 ≤ n && n ≤ 0x0D) || n == 0x85 || n == 0xA0 || n == 0x1680 ||
    (0x2000 ≤ n && n ≤ 0x200A) || n == 0x2028 || n == 0x2029 || n == 0x202F || n == 0x205F ||
    n == 0x3000

/-- Every character is blank; so the empty text is blank. -/
def isBlankText (s : List Char) : Bool := s.all isBlank

def trimStart (s : List Char) : List Char := s.dropWhile isBlank

def trimEnd : List Char → List Char
  | [] => []
  | c :: s => match trimEnd s with
    | [] => if isBlank c then [] else [c]
    | t@(_ :: _) => c :: t

def trim (s : List Char) : List Char := trimEnd (trimStart s)

end MetaBlocks.Text
