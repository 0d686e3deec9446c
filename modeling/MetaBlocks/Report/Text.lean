import MetaBlocks.Report
import MetaBlocks.Text.Decimal
import MetaBlocks.Text.Quoted

/-!
The report for people to read, line by line. Names and values that come from the document stand in
quotes.
-/

set_option autoImplicit false
set_option relaxedAutoImplicit false

namespace MetaBlocks

open Text

def ValueType.label : ValueType → List Char
  | .string => "String".toList
  | .number => "Number".toList
  | .boolean => "Boolean".toList

def SpanScope.label : SpanScope → List Char
  | .line => "line".toList
  | .mark => "mark".toList

namespace Report

def lineNote (line : Nat) : List Char := " (line ".toList ++ decimal line ++ [')']

def declarationLine (d : Declaration) : List Char :=
  "    ".toList ++ d.keyword.word ++ ' ' :: quote d.name ++ lineNote d.line

def entryLine (e : Entry) : List Char :=
  "    ".toList ++ e.key ++ ':' :: ' ' :: quote e.value ++ " [".toList ++ e.type.label ++
    ']' :: lineNote e.line

def blockLines (b : Block) : List (List Char) :=
  ("  lines ".toList ++ decimal b.opening.line ++ '-' :: decimal b.closing.line) ::
    b.declarations.map declarationLine ++ b.entries.map entryLine

def lineNumbers (ds : List Delimiter) : List Char :=
  if ds.isEmpty then "none".toList else [',', ' '].intercalate (ds.map fun d => decimal d.line)

def padRight (width : Nat) (s : List Char) : List Char :=
  s ++ List.replicate (width - s.length) ' '

def spanLine (s : Span) : List Char :=
  "  ".toList ++ padRight 12 (range s.extent.start s.extent.stop) ++ ' ' :: s.scope.label ++
    ' ' :: s.kind.name

def foldLine (f : FoldReport) : List Char :=
  "fold line ".toList ++ decimal f.line ++ match f.fold with
    | some x =>
      ": lines ".toList ++ decimal x.startLine ++ '-' :: decimal x.endLine ++ ", chars ".toList ++
        range x.hidden.start x.hidden.stop
    | none => ": none".toList

def candidateLine (c : Candidate) : List Char :=
  "  ".toList ++ c.label ++ match c.detail with
    | some detail => " - ".toList ++ detail
    | none => []

def completionLines (c : CompletionReport) : List (List Char) :=
  ("completion at ".toList ++ decimal c.cursor ++ match c.context with
    | some x => " (".toList ++ x.keyword.word ++ ", typed ".toList ++ quote x.typed ++ "):".toList
    | none => ": not on a keyword line".toList) :: c.candidates.map candidateLine

def textLines (r : Report) : List (List Char) :=
  ["document: ".toList ++ decimal r.lineCount ++ " lines, ".toList ++ decimal r.length ++
      " chars".toList,
    "blocks: ".toList ++ decimal r.detection.blocks.length] ++
  r.detection.blocks.flatMap blockLines ++
  ["horizontal rules: ".toList ++ lineNumbers r.detection.rules,
    "orphan delimiters: ".toList ++ lineNumbers r.detection.orphans,
    "spans ".toList ++ range r.viewport.start r.viewport.stop ++ ':' :: ' ' ::
      decimal r.spans.length] ++
  r.spans.map spanLine ++
  r.fold.toList.map foldLine ++
  (r.completion.map completionLines).getD []

/-- The report as text; every line is ended. -/
def toText (r : Report) : List Char := r.textLines.flatMap fun l => l ++ ['\n']

end Report

end MetaBlocks
