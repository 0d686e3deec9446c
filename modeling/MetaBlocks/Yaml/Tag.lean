import MetaBlocks.Yaml.Scalar

/-!
Tags, anchors and directives: the small texts with which a YAML document names types and nodes.
-/

set_option autoImplicit false
set_option relaxedAutoImplicit false

namespace MetaBlocks.Yaml

/-- A tag as written: a handle, which stands for the start of an address, and the rest. -/
structure WrittenTag where
  handle : List Char
  suffix : List Char
  deriving DecidableEq, Repr, Inhabited

namespace WrittenTag

/-- A character of an address; some are allowed only between angle brackets. -/
def isAddressChar (verbatim : Bool) (c : Char) : Bool :=
  isNameChar c || ";/?:@&=+$.%!~*'()".toList.contains c || (verbatim && ",[]".toList.contains c)

/-- The number of octets of a character, read off its first octet. -/
def octetCount (octet : Nat) : Nat :=
  if octet < 0x80 then 1
  else if octet / 0x20 = 6 then 2
  else if octet / 0x10 = 14 then 3
  else if octet / 0x08 = 30 then 4
  else 0

def octetPayload (octet : Nat) : Nat → Nat
  | 1 => octet
  | 2 => octet % 0x20
  | 3 => octet % 0x10
  | _ => octet % 0x08

def octet? : List Char → Option (Nat × List Char)
  | '%' :: a :: b :: rest => do
    let high ← Scalar.hexDigit? a
    let low ← Scalar.hexDigit? b
    return (16 * high + low, rest)
  | _ => none

def trailing : Nat → Nat → List Char → Except Problem (Char × List Char)
  | 0, value, cs => .ok (Char.ofNat value, cs)
  | n + 1, value, cs =>
    match octet? cs with
    | none => .error .addressOctet
    | some (octet, rest) =>
      if octet / 0x40 = 2 then trailing n (0x40 * value + octet % 0x40) rest
      else .error .trailingOctet

/-- An address with its percent escapes read as UTF-8. -/
def unescape : Nat → List Char → Except Problem (List Char)
  | _, [] => .ok []
  | 0, _ => .ok []
  | fuel + 1, c :: cs =>
    if c = '%' then
      match octet? (c :: cs) with
      | none => .error .addressOctet
      | some (octet, rest) =>
        match octetCount octet with
        | 0 => .error .leadingOctet
        | n + 1 => do
          let (d, rest) ← trailing n (octetPayload octet (n + 1)) rest
          return d :: (← unescape fuel rest)
    else do return c :: (← unescape fuel cs)

/-- An address, which starts with the given characters. -/
def address (verbatim : Bool) (head : List Char) (gs : List Glyph) :
    Except Problem (List Char × List Glyph) := do
  let (cs, rest) := Glyph.splitWhile (isAddressChar verbatim) gs
  let cs ← unescape cs.length cs
  return (head ++ cs, rest)

def address1 (verbatim : Bool) (gs : List Glyph) : Except Problem (List Char × List Glyph) := do
  let (cs, rest) ← address verbatim [] gs
  if cs.isEmpty then .error .tagAddress else return (cs, rest)

/-- A handle: an exclamation mark, and a name with another mark if there is one. -/
def scanHandle : List Glyph → Except Problem (List Char × List Glyph)
  | g :: gs =>
    if g.char == '!' then
      let (name, rest) := Glyph.splitWhile isNameChar gs
      match rest with
      | h :: rest' =>
        if h.char == '!' then .ok ('!' :: name ++ ['!'], rest') else .ok ('!' :: name, rest)
      | [] => .ok ('!' :: name, [])
    else .error .tagMark
  | [] => .error .tagMark

/-- A tag. The mark alone is a tag without a handle. -/
def scan (inFlow : Bool) (gs : List Glyph) : Except Problem (WrittenTag × List Glyph) := do
  let (tag, rest) ← match gs with
    | _ :: ⟨'<', _⟩ :: gs => do
      let (suffix, rest) ← address1 true gs
      match rest with
      | ⟨'>', _⟩ :: rest => pure (⟨[], suffix⟩, rest)
      | _ => throw Problem.tagClosing
    | _ => do
      let (h, rest) ← scanHandle gs
      if 1 < h.length && h.getLast? = some '!' then
        let (suffix, rest) ← address1 false rest
        pure (⟨h, suffix⟩, rest)
      else
        let (suffix, rest) ← address false (h.drop 1) rest
        pure (if suffix.isEmpty then ⟨[], ['!']⟩ else ⟨['!'], suffix⟩, rest)
  if Glyph.gapOrEnd rest || (inFlow && Glyph.startsWith ',' rest) then return (tag, rest)
  else throw Problem.tagEnd

end WrittenTag

def anchorName (gs : List Glyph) : Except Problem (List Char × List Glyph) :=
  let (name, rest) := Glyph.splitWhile isNameChar gs
  if !name.isEmpty && (Glyph.gapOrEnd rest ||
      rest.head?.any fun g => "?:,]\x7d%@`".toList.contains g.char) then .ok (name, rest)
  else .error .anchorName

inductive Directive where
  | version (major minor : Nat)
  | tag (handle start : List Char)
  deriving DecidableEq, Repr, Inhabited

namespace Directive

def versionPart (gs : List Glyph) : Except Problem (Nat × List Glyph) :=
  let (ds, rest) := Glyph.splitWhile Char.isDigit gs
  if ds.isEmpty then .error .versionNumber
  else if 9 < ds.length then .error .longVersionNumber
  else .ok (ds.foldl (fun n d => 10 * n + (d.toNat - '0'.toNat)) 0, rest)

def scanVersion (gs : List Glyph) : Except Problem (Directive × List Glyph) := do
  let (major, rest) ← versionPart (Glyph.skipGap gs)
  match rest with
  | ⟨'.', _⟩ :: rest =>
    let (minor, rest) ← versionPart rest
    return (version major minor, rest)
  | _ => throw .versionPoint

def scanTag (gs : List Glyph) : Except Problem (Directive × List Glyph) := do
  let (handle, rest) ← WrittenTag.scanHandle (Glyph.skipGap gs)
  if handle ≠ ['!'] && handle.getLast? ≠ some '!' then throw .tagMark
  if !rest.head?.any (fun g => isGap g.char) then throw .tagGap
  let (start, rest) ← WrittenTag.address1 true (Glyph.skipGap rest)
  if Glyph.gapOrEnd rest then return (tag handle start, rest) else throw .tagEnd

/-- A directive without its indicator, and the rest after its line. -/
def scan (gs : List Glyph) : Except Problem (Directive × List Glyph) := do
  let (name, rest) := Glyph.splitWhile isNameChar gs
  if name.isEmpty then throw .directiveName
  if !Glyph.gapOrEnd rest then throw .directiveNameEnd
  let (directive, rest) ←
    if name = "YAML".toList then scanVersion rest
    else if name = "TAG".toList then scanTag rest
    else throw .unknownDirective
  let rest ← Glyph.skipLineEnd .directiveEnd rest
  return (directive, rest)

end Directive

end MetaBlocks.Yaml
