import MetaBlocks.Block

/-!
Styled spans. A span says what it highlights; whole-line spans lie under the marks on tokens. Spans
are ordered by where they start, then by the priority of their kind, then by where they end.
-/

set_option autoImplicit false
set_option relaxedAutoImplicit false

namespace MetaBlocks

/-- What a span highlights, in order of priority. -/
inductive SpanKind where
  | blockBackground
  | delimiter
  | scopeKeyword
  | quillKeyword
  | identifier
  | yamlKey
  | yamlValueString
  | yamlValueNumber
  | yamlValueBoolean
  deriving DecidableEq, Repr, Inhabited

inductive SpanScope where
  | line
  | mark
  deriving DecidableEq, Repr, Inhabited

namespace SpanKind

def all : List SpanKind :=
  [blockBackground, delimiter, scopeKeyword, quillKeyword, identifier, yamlKey, yamlValueString,
    yamlValueNumber, yamlValueBoolean]

def rank : SpanKind → Nat
  | blockBackground => 0
  | delimiter => 1
  | scopeKeyword => 2
  | quillKeyword => 3
  | identifier => 4
  | yamlKey => 5
  | yamlValueString => 6
  | yamlValueNumber => 7
  | yamlValueBoolean => 8

def name : SpanKind → List Char
  | blockBackground => "BlockBackground".toList
  | delimiter => "Delimiter".toList
  | scopeKeyword => "ScopeKeyword".toList
  | quillKeyword => "QuillKeyword".toList
  | identifier => "Identifier".toList
  | yamlKey => "YamlKey".toList
  | yamlValueString => "YamlValueString".toList
  | yamlValueNumber => "YamlValueNumber".toList
  | yamlValueBoolean => "YamlValueBoolean".toList

def scope : SpanKind → SpanScope
  | blockBackground => .line
  | _ => .mark

def ofKeyword : Keyword → SpanKind
  | .scope => scopeKeyword
  | .quill => quillKeyword

def ofValueType : ValueType → SpanKind
  | .string => yamlValueString
  | .number => yamlValueNumber
  | .boolean => yamlValueBoolean

end SpanKind

structure Span where
  extent : Extent
  kind : SpanKind
  deriving DecidableEq, Repr, Inhabited

namespace Span

def scope (s : Span) : SpanScope := s.kind.scope

/-- The span reaches into a range; an empty range has no inside. -/
def intersects (s : Span) (e : Extent) : Bool := !e.isEmpty && s.extent.overlaps e

def precedes (a b : Span) : Bool :=
  a.extent.start < b.extent.start ||
    a.extent.start == b.extent.start &&
      (a.kind.rank < b.kind.rank ||
        a.kind.rank == b.kind.rank && a.extent.stop ≤ b.extent.stop)

end Span

end MetaBlocks
