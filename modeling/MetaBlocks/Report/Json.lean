import MetaBlocks.Json.Encode
import MetaBlocks.Report

/-!
The report as JSON. What was not asked for is left out.
-/

set_option autoImplicit false
set_option relaxedAutoImplicit false

namespace MetaBlocks

def FoldReport.toJson (f : FoldReport) : Json :=
  .object [("line", .number f.line), ("range", .ofOption Fold.toJson f.fold)]

def CompletionReport.toJson (c : CompletionReport) : Json :=
  .object [("cursor", .number c.cursor), ("context", .ofOption CompletionContext.toJson c.context),
    ("candidates", .ofList Candidate.toJson c.candidates)]

/-- A member that is there only if its value is. -/
def Json.memberOfOption {α : Type} (name : String) (encode : α → Json) :
    Option α → List (String × Json)
  | some a => [(name, encode a)]
  | none => []

def Report.toJson (r : Report) : Json :=
  .object (
    [("lines", .number r.lineCount), ("chars", .number r.length),
      ("detection", r.detection.toJson), ("viewport", r.viewport.toJson),
      ("spans", .ofList Span.toJson r.spans)] ++
    Json.memberOfOption "fold" FoldReport.toJson r.fold ++
    Json.memberOfOption "completion" CompletionReport.toJson r.completion)

end MetaBlocks
