import MetaBlocks.Completion
import MetaBlocks.Decoration
import MetaBlocks.Folding
import MetaBlocks.Json
import MetaBlocks.Style

/-!
The JSON form of everything the library finds. Names of members are part of the format that hosts
read.
-/

set_option autoImplicit false
set_option relaxedAutoImplicit false

namespace MetaBlocks

namespace Json

universe u

def ofOption {α : Type u} (encode : α → Json) : Option α → Json
  | none => null
  | some a => encode a

def ofList {α : Type u} (encode : α → Json) (as : List α) : Json := array (as.map encode)

end Json

def Extent.toJson (e : Extent) : Json :=
  .object [("start", .number e.start), ("end", .number e.stop)]

def Keyword.toJson (k : Keyword) : Json := .string k.word

def ValueType.toJson : ValueType → Json
  | .string => .string "string".toList
  | .number => .string "number".toList
  | .boolean => .string "boolean".toList

def Delimiter.toJson (d : Delimiter) : Json :=
  .object [("line", .number d.line), ("range", d.extent.toJson)]

def Declaration.toJson (d : Declaration) : Json :=
  .object [("kind", d.keyword.toJson), ("line", .number d.line),
    ("keyword_range", d.keywordExtent.toJson), ("identifier", .string d.name),
    ("identifier_range", d.nameExtent.toJson)]

def Entry.toJson (e : Entry) : Json :=
  .object [("line", .number e.line), ("key", .string e.key), ("key_range", e.keyExtent.toJson),
    ("value", .string e.value), ("value_range", e.valueExtent.toJson),
    ("value_type", e.type.toJson)]

def Block.toJson (b : Block) : Json :=
  .object [("opening", b.opening.toJson), ("closing", b.closing.toJson),
    ("body_lines", b.bodyLines.toJson), ("body_range", b.bodyExtent.toJson),
    ("line_ranges", .ofList Extent.toJson b.lineExtents),
    ("keywords", .ofList Declaration.toJson b.declarations),
    ("entries", .ofList Entry.toJson b.entries)]

def Detection.toJson (x : Detection) : Json :=
  .object [("blocks", .ofList Block.toJson x.blocks),
    ("orphan_delimiters", .ofList Delimiter.toJson x.orphans),
    ("horizontal_rules", .ofList Delimiter.toJson x.rules)]

def SpanKind.toJson (k : SpanKind) : Json := .string k.name

def SpanScope.toJson : SpanScope → Json
  | .line => .string "Line".toList
  | .mark => .string "Mark".toList

def Span.toJson (s : Span) : Json :=
  .object [("range", s.extent.toJson), ("kind", s.kind.toJson), ("scope", s.scope.toJson)]

def Interval.toJson (i : Interval) : Json :=
  .object [("start", .number i.extent.start), ("end", .number i.extent.stop),
    ("style_id", .number i.style.toNat)]

def Fold.toJson (f : Fold) : Json :=
  .object [("start_line", .number f.startLine), ("end_line", .number f.endLine),
    ("from", .number f.hidden.start), ("to", .number f.hidden.stop)]

def FoldRegion.toJson (r : FoldRegion) : Json :=
  .object [("start_line", .number r.startLine), ("end_line", .number r.endLine),
    ("is_collapsed", .bool r.isCollapsed), ("placeholder", .string r.placeholder)]

def CompletionContext.toJson (c : CompletionContext) : Json :=
  .object [("keyword", c.keyword.toJson), ("line", .number c.line), ("typed", .string c.typed),
    ("replace", c.replaced.toJson)]

def CandidateKind.toJson : CandidateKind → Json
  | .scope => .string "scope".toList
  | .template => .string "template".toList

def Candidate.toJson (c : Candidate) : Json :=
  .object [("label", .string c.label), ("detail", .ofOption .string c.detail),
    ("kind", c.kind.toJson)]

end MetaBlocks
