/-!
Places in a YAML text, and the ways in which a text can fail to be YAML.
-/

set_option autoImplicit false
set_option relaxedAutoImplicit false

namespace MetaBlocks.Yaml

/-- A place in a text; all three numbers count characters or lines from zero. -/
structure Mark where
  index : Nat
  line : Nat
  column : Nat
  deriving DecidableEq, Repr, Inhabited

namespace Mark

def next (m : Mark) : Mark := ⟨m.index + 1, m.line, m.column + 1⟩

def nextLine (m : Mark) (length : Nat) : Mark := ⟨m.index + length, m.line + 1, 0⟩

/-- The very start of the text, which messages leave out. -/
def isStart (m : Mark) : Bool := m.line == 0 && m.column == 0

def describe (m : Mark) : String := s!"line {m.line + 1} column {m.column + 1}"

end Mark

inductive Problem where
  | controlCharacter
  | missingColon
  | misplacedEntry
  | misplacedKey
  | misplacedValue
  | strayCharacter
  | directiveName
  | directiveNameEnd
  | unknownDirective
  | directiveEnd
  | versionNumber
  | longVersionNumber
  | versionPoint
  | anchorName
  | tagMark
  | tagAddress
  | tagClosing
  | tagEnd
  | tagGap
  | addressOctet
  | leadingOctet
  | trailingOctet
  | zeroIndent
  | tabIndent
  | documentInQuotes
  | unclosedQuotes
  | unknownEscape
  | escapeDigit
  | escapeCodePoint
  | plainColon
  | plainTab
  | documentStart
  | repeatedVersion
  | foreignVersion
  | repeatedTag
  | unknownHandle
  | nodeContent
  | blockEntry
  | blockKey
  | flowSequenceEnd
  | flowMappingEnd
  | unknownAnchor
  deriving DecidableEq, Repr, Inhabited

def Problem.message : Problem → String
  | controlCharacter => "control characters are not allowed"
  | missingColon => "could not find expected ':'"
  | misplacedEntry => "block sequence entries are not allowed in this context"
  | misplacedKey => "mapping keys are not allowed in this context"
  | misplacedValue => "mapping values are not allowed in this context"
  | strayCharacter => "found character that cannot start any token"
  | directiveName => "could not find expected directive name"
  | directiveNameEnd => "found unexpected non-alphabetical character"
  | unknownDirective => "found unknown directive name"
  | directiveEnd => "did not find expected comment or line break"
  | versionNumber => "did not find expected version number"
  | longVersionNumber => "found extremely long version number"
  | versionPoint => "did not find expected digit or '.' character"
  | anchorName => "did not find expected alphabetic or numeric character"
  | tagMark => "did not find expected '!'"
  | tagAddress => "did not find expected tag URI"
  | tagClosing => "did not find the expected '>'"
  | tagEnd => "did not find expected whitespace or line break"
  | tagGap => "did not find expected whitespace"
  | addressOctet => "did not find URI escaped octet"
  | leadingOctet => "found an incorrect leading UTF-8 octet"
  | trailingOctet => "found an incorrect trailing UTF-8 octet"
  | zeroIndent => "found an indentation indicator equal to 0"
  | tabIndent => "found a tab character where an indentation space is expected"
  | documentInQuotes => "found unexpected document indicator"
  | unclosedQuotes => "found unexpected end of stream"
  | unknownEscape => "found unknown escape character"
  | escapeDigit => "did not find expected hexdecimal number"
  | escapeCodePoint => "found invalid Unicode character escape code"
  | plainColon => "found unexpected ':'"
  | plainTab => "found a tab character that violates indentation"
  | documentStart => "did not find expected <document start>"
  | repeatedVersion => "found duplicate %YAML directive"
  | foreignVersion => "found incompatible YAML document"
  | repeatedTag => "found duplicate %TAG directive"
  | unknownHandle => "found undefined tag handle"
  | nodeContent => "did not find expected node content"
  | blockEntry => "did not find expected '-' indicator"
  | blockKey => "did not find expected key"
  | flowSequenceEnd => "did not find expected ',' or ']'"
  | flowMappingEnd => "did not find expected ',' or '\x7d'"
  | unknownAnchor => "unknown anchor"

structure SyntaxError where
  problem : Problem
  mark : Mark
  deriving DecidableEq, Repr, Inhabited

/-- The problem in words, with its place unless that is the very start. -/
def SyntaxError.message (e : SyntaxError) : String :=
  if e.mark.isStart then e.problem.message
  else e.problem.message ++ " at " ++ e.mark.describe

end MetaBlocks.Yaml
