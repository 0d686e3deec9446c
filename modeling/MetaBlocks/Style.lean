import MetaBlocks.Span

/-!
Style numbers for spans, and the intervals a host lays over its text. A style is only a number; the
host's theme gives it a look. The defaults come from the range reserved for metadata.
-/

set_option autoImplicit false
set_option relaxedAutoImplicit false

namespace MetaBlocks

structure Styles where
  blockBackground : UInt32 := 0x05000002
  delimiter : UInt32 := 0x05000001
  scopeKeyword : UInt32 := 0x05000010
  quillKeyword : UInt32 := 0x05000011
  identifier : UInt32 := 0x05000012
  yamlKey : UInt32 := 0x05000020
  yamlString : UInt32 := 0x05000021
  yamlNumber : UInt32 := 0x05000022
  yamlBoolean : UInt32 := 0x05000023
  deriving DecidableEq, Repr, Inhabited

def Styles.styleOf (t : Styles) : SpanKind → UInt32
  | .blockBackground => t.blockBackground
  | .delimiter => t.delimiter
  | .scopeKeyword => t.scopeKeyword
  | .quillKeyword => t.quillKeyword
  | .identifier => t.identifier
  | .yamlKey => t.yamlKey
  | .yamlValueString => t.yamlString
  | .yamlValueNumber => t.yamlNumber
  | .yamlValueBoolean => t.yamlBoolean

structure Interval where
  extent : Extent
  style : UInt32
  deriving DecidableEq, Repr, Inhabited

def Interval.ofSpans (t : Styles) (spans : List Span) : List Interval :=
  spans.map fun s => ⟨s.extent, t.styleOf s.kind⟩

end MetaBlocks
