import MetaBlocks.Yaml.Tag

/-!
The tokens of a YAML text. Besides the indicators there are tokens for where block collections
start and end, which the text shows by indentation only. That a scalar was a key becomes known at
the colon after it, so key tokens are put in where the scalar started.
-/

set_option autoImplicit false
set_option relaxedAutoImplicit false

namespace MetaBlocks.Yaml

inductive TokenKind where
  | directive (d : Directive)
  | documentStart
  | documentEnd
  | blockSequenceStart
  | blockMappingStart
  | blockEnd
  | flowSequenceStart
  | flowSequenceEnd
  | flowMappingStart
  | flowMappingEnd
  | blockEntry
  | flowEntry
  | key
  | value
  | reference (name : List Char)
  | anchor (name : List Char)
  | tag (t : WrittenTag)
  | scalar (style : ScalarStyle) (text : List Char)
  | streamEnd
  deriving DecidableEq, Repr, Inhabited

/-- A token with the places where it starts and, for indicators, ends. -/
structure Token where
  kind : TokenKind
  start : Mark
  stop : Mark
  deriving DecidableEq, Repr, Inhabited

/-- A place where a key may turn out to have started. -/
structure PossibleKey where
  /-- Only a key can stand there. -/
  required : Bool
  /-- Number of tokens before it. -/
  index : Nat
  mark : Mark
  deriving DecidableEq, Repr, Inhabited

structure Scan where
  /-- Tokens found, the last one first. -/
  tokens : List Token
  /-- Indentations of the open block collections, the innermost first. -/
  indents : List Nat
  /-- The possible key of each open flow collection, the innermost first, and of the blocks. -/
  keys : List (Option PossibleKey)
  /-- A key may start at the next token. -/
  keyAllowed : Bool
  rest : List Glyph
  /-- The end of the text. -/
  finish : Mark
  deriving DecidableEq, Repr, Inhabited

namespace Scan

def inFlow (s : Scan) : Bool := 1 < s.keys.length

def mark (s : Scan) : Mark :=
  match s.rest with
  | g :: _ => g.mark
  | [] => s.finish

/-- One more than the indentation of the innermost block, or zero outside all blocks. -/
def parentIndent (s : Scan) : Nat := (s.indents.head?.map (· + 1)).getD 0

def push (s : Scan) (t : Token) : Scan := { s with tokens := t :: s.tokens }

/-- A token put before all but the given number of tokens from the start. -/
def insert (s : Scan) (index : Nat) (t : Token) : Scan :=
  let later := s.tokens.length - index
  { s with tokens := s.tokens.take later ++ t :: s.tokens.drop later }

def currentKey (s : Scan) : Option PossibleKey := s.keys.head?.join

def withKey (s : Scan) (k : Option PossibleKey) : Scan :=
  { s with keys := k :: s.keys.drop 1 }

/-- Gives up the possible key at hand, which must not be required. -/
def dropKey (s : Scan) : Except SyntaxError Scan :=
  match s.currentKey with
  | some k => if k.required then .error ⟨.missingColon, k.mark⟩ else .ok (s.withKey none)
  | none => .ok s

def noteKey (s : Scan) : Except SyntaxError Scan :=
  if s.keyAllowed then do
    let required := !s.inFlow && s.indents.head? = some s.mark.column
    let s' ← s.dropKey
    return s'.withKey (some ⟨required, s.tokens.length, s.mark⟩)
  else .ok s

/-- Gives up the possible keys that started on an earlier line or too far back. -/
def dropStaleKeys (s : Scan) : Except SyntaxError Scan := do
  let keys ← s.keys.mapM fun
    | some k =>
      if k.mark.line < s.mark.line || k.mark.index + 1024 < s.mark.index then
        if k.required then .error ⟨.missingColon, k.mark⟩ else pure none
      else pure (some k)
    | none => pure none
  return { s with keys := keys }

/-- Opens a block collection if the column is further in than the innermost one. The token goes to
the given index, or to the end. -/
def openBlock (s : Scan) (column : Nat) (index : Option Nat) (kind : TokenKind) (m : Mark) : Scan :=
  if s.inFlow || !s.indents.head?.all (· < column) then s
  else
    let s := { s with indents := column :: s.indents }
    match index with
    | some i => s.insert i ⟨kind, m, m⟩
    | none => s.push ⟨kind, m, m⟩

def closing (m : Mark) (column : Option Nat) : List Nat → List Token → List Token × List Nat
  | [], tokens => (tokens, [])
  | n :: ns, tokens =>
    if column.all (· < n) then closing m column ns (⟨.blockEnd, m, m⟩ :: tokens)
    else (tokens, n :: ns)

/-- Closes the block collections that are further in than a column, or all. -/
def closeBlocks (s : Scan) (column : Option Nat) : Scan :=
  if s.inFlow then s
  else
    let (tokens, indents) := closing s.mark column s.indents s.tokens
    { s with tokens := tokens, indents := indents }

/-- The rest after blanks, comments and breaks; outside flow collections a break lets a key start,
and where a key may start a tab is no blank. -/
def skipBlanks (inFlow : Bool) (inComment keyAllowed : Bool) : List Glyph → List Glyph × Bool
  | [] => ([], keyAllowed)
  | g :: gs =>
    if isBreak g.char then skipBlanks inFlow false (keyAllowed || !inFlow) gs
    else if inComment then skipBlanks inFlow true keyAllowed gs
    else if g.char == '#' then skipBlanks inFlow true keyAllowed gs
    else if g.char == ' ' || (g.char == '\t' && (inFlow || !keyAllowed)) ||
        (g.char.toNat == 0xFEFF && g.mark.column == 0) then skipBlanks inFlow false keyAllowed gs
    else (g :: gs, keyAllowed)

/-- Goes to the next token, closing what ends before it. -/
def advance (s : Scan) : Except SyntaxError Scan := do
  let (rest, keyAllowed) := skipBlanks s.inFlow false s.keyAllowed s.rest
  let s ← { s with rest := rest, keyAllowed := keyAllowed }.dropStaleKeys
  return s.closeBlocks (some s.mark.column)

def indicator (s : Scan) (kind : TokenKind) : Scan :=
  { s with rest := s.rest.drop 1 }.push ⟨kind, s.mark, s.mark.next⟩

def documentMarker (s : Scan) (kind : TokenKind) : Except SyntaxError Scan := do
  let s ← (s.closeBlocks none).dropKey
  let m := s.mark
  return { s with keyAllowed := false, rest := s.rest.drop 3 }.push ⟨kind, m, m.next.next.next⟩

def flowStart (s : Scan) (kind : TokenKind) : Except SyntaxError Scan := do
  let s ← s.noteKey
  return { s with keys := none :: s.keys, keyAllowed := true }.indicator kind

def flowEnd (s : Scan) (kind : TokenKind) : Except SyntaxError Scan := do
  let s ← s.dropKey
  let keys := if s.inFlow then s.keys.drop 1 else s.keys
  return { s with keys := keys, keyAllowed := false }.indicator kind

def flowEntry (s : Scan) : Except SyntaxError Scan := do
  let s ← s.dropKey
  return { s with keyAllowed := true }.indicator .flowEntry

def blockEntry (s : Scan) : Except SyntaxError Scan := do
  if !s.inFlow && !s.keyAllowed then throw ⟨.misplacedEntry, s.mark⟩
  let s ← (s.openBlock s.mark.column none .blockSequenceStart s.mark).dropKey
  return { s with keyAllowed := true }.indicator .blockEntry

def explicitKey (s : Scan) : Except SyntaxError Scan := do
  if !s.inFlow && !s.keyAllowed then throw ⟨.misplacedKey, s.mark⟩
  let s ← (s.openBlock s.mark.column none .blockMappingStart s.mark).dropKey
  return { s with keyAllowed := !s.inFlow }.indicator .key

/-- Takes the colon before a value; what stands before it turns out to be a key. -/
def value (s : Scan) : Except SyntaxError Scan :=
  match s.currentKey with
  | some k =>
    let s := s.insert k.index ⟨.key, k.mark, k.mark⟩
    let s := s.openBlock k.mark.column (some k.index) .blockMappingStart k.mark
    .ok ({ s.withKey none with keyAllowed := false }.indicator .value)
  | none => do
    if !s.inFlow && !s.keyAllowed then throw ⟨.misplacedValue, s.mark⟩
    let s := s.openBlock s.mark.column none .blockMappingStart s.mark
    return { s with keyAllowed := !s.inFlow }.indicator .value

/-- Takes a token that a reader of the rest gives; a key may start with it. -/
def take (s : Scan) (read : List Glyph → Except Problem (TokenKind × List Glyph)) :
    Except SyntaxError Scan := do
  let s ← s.noteKey
  match read s.rest with
  | .ok (kind, rest) =>
    return { s with keyAllowed := false, rest := rest }.push ⟨kind, s.mark, s.mark⟩
  | .error p => throw ⟨p, s.mark⟩

/-- Takes a plain scalar; after a line break a key may start. -/
def plainScalar (s : Scan) : Except SyntaxError Scan := do
  let s ← s.noteKey
  match Scalar.plain s.inFlow s.parentIndent false .none [] s.rest with
  | .ok (text, broken, rest) =>
    return { s with keyAllowed := broken, rest := rest }.push ⟨.scalar .plain text, s.mark, s.mark⟩
  | .error p => throw ⟨p, s.mark⟩

/-- Takes a block scalar, which is never a key. -/
def blockScalar (s : Scan) (style : ScalarStyle) : Except SyntaxError Scan := do
  let s ← s.dropKey
  match Scalar.block (style = .literal) s.parentIndent (s.rest.drop 1) with
  | .ok (text, rest) =>
    return { s with keyAllowed := true, rest := rest }.push ⟨.scalar style text, s.mark, s.mark⟩
  | .error p => throw ⟨p, s.mark⟩

def directive (s : Scan) : Except SyntaxError Scan := do
  let s ← (s.closeBlocks none).dropKey
  match Directive.scan (s.rest.drop 1) with
  | .ok (d, rest) =>
    return { s with keyAllowed := false, rest := rest }.push ⟨.directive d, s.mark, s.mark⟩
  | .error p => throw ⟨p, s.mark⟩

/-- Indicators that cannot start a plain scalar. -/
def isIndicator (c : Char) : Bool := "-?:,[]\x7b\x7d#&*!|>'\"%@`".toList.contains c

def token (s : Scan) (g : Glyph) (gs : List Glyph) : Except SyntaxError Scan :=
  let c := g.char
  let gapNext := Glyph.gapOrEnd gs
  if g.mark.column == 0 && c == '%' then s.directive
  else if Glyph.isMarker '-' (g :: gs) then s.documentMarker .documentStart
  else if Glyph.isMarker '.' (g :: gs) then s.documentMarker .documentEnd
  else if c == '[' then s.flowStart .flowSequenceStart
  else if c == '\x7b' then s.flowStart .flowMappingStart
  else if c == ']' then s.flowEnd .flowSequenceEnd
  else if c == '\x7d' then s.flowEnd .flowMappingEnd
  else if c == ',' then s.flowEntry
  else if c == '-' && gapNext then s.blockEntry
  else if c == '?' && (s.inFlow || gapNext) then s.explicitKey
  else if c == ':' && (s.inFlow || gapNext) then s.value
  else if c == '*' then s.take fun r => do
    let (name, rest) ← anchorName (r.drop 1)
    return (.reference name, rest)
  else if c == '&' then s.take fun r => do
    let (name, rest) ← anchorName (r.drop 1)
    return (.anchor name, rest)
  else if c == '!' then s.take fun r => do
    let (t, rest) ← WrittenTag.scan s.inFlow r
    return (.tag t, rest)
  else if c == '|' && !s.inFlow then s.blockScalar .literal
  else if c == '>' && !s.inFlow then s.blockScalar .folded
  else if c == '\'' then s.take fun r => do
    let (text, rest) ← Scalar.quoted false .text .none [] (r.drop 1)
    return (.scalar .singleQuoted text, rest)
  else if c == '"' then s.take fun r => do
    let (text, rest) ← Scalar.quoted true .text .none [] (r.drop 1)
    return (.scalar .doubleQuoted text, rest)
  else if (!isGap c && !isIndicator c) || (c == '-' && !gs.head?.any fun h => isGap h.char) ||
      (!s.inFlow && (c == '?' || c == ':') && !gapNext) then s.plainScalar
  else .error ⟨.strayCharacter, g.mark⟩

/-- Takes tokens until the text ends. Every token takes a character, so fuel for one more step than
there are characters is enough. -/
def run : Nat → Scan → Except SyntaxError Scan
  | 0, s => .ok s
  | fuel + 1, s => do
    let s ← s.advance
    match s.rest with
    | g :: gs => run fuel (← s.token g gs)
    | [] =>
      let s := { s with finish := if s.finish.column = 0 then s.finish else s.finish.nextLine 0 }
      let s ← (s.closeBlocks none).dropKey
      return s.push ⟨.streamEnd, s.finish, s.finish⟩

def start (gs : List Glyph) (finish : Mark) : Scan := ⟨[], [], [none], true, gs, finish⟩

end Scan

/-- The tokens of a text, in order; the last one ends the stream. -/
def Token.ofText (text : List Char) : Except SyntaxError (List Token) :=
  let (gs, finish) := Glyph.ofChars ⟨0, 0, 0⟩ text
  if text.all isAllowed then do
    let s ← (Scan.start gs finish).run (gs.length + 1)
    return s.tokens.reverse
  else .error ⟨.controlCharacter, ⟨0, 0, 0⟩⟩

end MetaBlocks.Yaml
