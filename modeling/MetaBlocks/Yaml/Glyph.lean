import MetaBlocks.Yaml.Mark

/-!
A YAML text as a list of characters that know their place. Line breaks are made alike here: a
carriage return, with or without a line feed, and the next-line character become a line feed. The
line and paragraph separators break lines too, and stay what they are.
-/

set_option autoImplicit false
set_option relaxedAutoImplicit false

namespace MetaBlocks.Yaml

structure Glyph where
  char : Char
  mark : Mark
  deriving DecidableEq, Repr, Inhabited

def isAllowed (c : Char) : Bool :=
  let n := c.toNat
  n == 0x09 || n == 0x0A || n == 0x0D || (0x20 ≤ n && n ≤ 0x7E) || n == 0x85 ||
    (0xA0 ≤ n && n ≤ 0xD7FF) || (0xE000 ≤ n && n ≤ 0xFFFD) || 0x10000 ≤ n

def isGap (c : Char) : Bool := c == ' ' || c == '\t'

/-- A character that ends a line, once breaks are made alike. -/
def isBreak (c : Char) : Bool := c == '\n' || c.toNat == 0x2028 || c.toNat == 0x2029

/-- A character of anchors, directive names and tag handles. -/
def isNameChar (c : Char) : Bool := c.isAlphanum || c == '_' || c == '-'

namespace Glyph

def ofChars (m : Mark) : List Char → List Glyph × Mark
  | [] => ([], m)
  | '\r' :: '\n' :: cs =>
    let (gs, stop) := ofChars (m.nextLine 2) cs
    (⟨'\n', m⟩ :: gs, stop)
  | c :: cs =>
    if c = '\r' || c.toNat == 0x85 then
      let (gs, stop) := ofChars (m.nextLine 1) cs
      (⟨'\n', m⟩ :: gs, stop)
    else
      let (gs, stop) := ofChars (if isBreak c then m.nextLine 1 else m.next) cs
      (⟨c, m⟩ :: gs, stop)

def gapOrEnd : List Glyph → Bool
  | [] => true
  | g :: _ => isGap g.char || isBreak g.char

def startsWith (c : Char) : List Glyph → Bool
  | [] => false
  | g :: _ => g.char == c

/-- A marker of three like characters at the start of a line, with a gap after it. -/
def isMarker (c : Char) : List Glyph → Bool
  | a :: b :: d :: rest =>
    a.mark.column == 0 && a.char == c && b.char == c && d.char == c && gapOrEnd rest
  | _ => false

def isDocumentMarker (gs : List Glyph) : Bool := isMarker '-' gs || isMarker '.' gs

def chars (gs : List Glyph) : List Char := gs.map Glyph.char

def splitWhile (test : Char → Bool) (gs : List Glyph) : List Char × List Glyph :=
  (chars (gs.takeWhile fun g => test g.char), gs.dropWhile fun g => test g.char)

def skipGap (gs : List Glyph) : List Glyph := gs.dropWhile fun g => isGap g.char

/-- The rest of a line after spaces, tabs and a comment; nothing else may stand there. -/
def skipLineEnd (p : Problem) (gs : List Glyph) : Except Problem (List Glyph) :=
  let gs := skipGap gs
  let gs := if startsWith '#' gs then gs.dropWhile fun g => !isBreak g.char else gs
  match gs with
  | [] => .ok []
  | g :: rest => if isBreak g.char then .ok rest else .error p

end Glyph

end MetaBlocks.Yaml
