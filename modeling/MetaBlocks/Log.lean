import MetaBlocks.Report
import MetaBlocks.Text.Decimal
import MetaBlocks.Text.Quoted

/-!
The log: what is told about the work on a document. Every event has a level and names the part of
the program that it comes from.
-/

set_option autoImplicit false
set_option relaxedAutoImplicit false

namespace MetaBlocks

inductive LogLevel where
  | error
  | warn
  | info
  | debug
  | trace
  deriving DecidableEq, Repr, Inhabited

namespace LogLevel

/-- One for what matters most, and five for what matters least. -/
def rank : LogLevel → Nat
  | error => 1
  | warn => 2
  | info => 3
  | debug => 4
  | trace => 5

def name : LogLevel → List Char
  | error => "ERROR".toList
  | warn => "WARN".toList
  | info => "INFO".toList
  | debug => "DEBUG".toList
  | trace => "TRACE".toList

end LogLevel

structure LogEvent where
  level : LogLevel
  target : List Char
  message : List Char
  deriving DecidableEq, Repr, Inhabited

namespace LogEvent

open Text

def line (e : LogEvent) : List Char := e.level.name ++ ' ' :: e.target ++ ':' :: ' ' :: e.message

def field (name : String) (n : Nat) : List Char := ' ' :: name.toList ++ '=' :: decimal n

def inspecting (file : List Char) (d : Document) : LogEvent where
  level := .debug
  target := "quill_meta".toList
  message := "inspecting document file=".toList ++ file ++ field "chars" d.length ++
    field "lines" d.lineCount

def lookedUp (l : Lookup) (d : Document) : LogEvent where
  level := .trace
  target := "quill_meta::engine".toList
  message := (match l with
    | .hit => "metadata detection cache hit"
    | .miss => "metadata detection cache miss").toList ++ field "revision" d.revision

/-- What is told of a finding: rules that stand alone, and openers without an end. -/
def ofFinding? : Finding → Option LogEvent
  | .rule x true => some {
      level := .trace
      target := "quill_meta::detector::scan".toList
      message := "delimiter is a horizontal rule".toList ++ field "line" x.line }
  | .orphan x => some {
      level := .trace
      target := "quill_meta::detector::scan".toList
      message := "unterminated metadata opener".toList ++ field "line" x.line }
  | _ => none

def detected (d : Document) (x : Detection) : LogEvent where
  level := .debug
  target := "quill_meta::detector".toList
  message := "metadata detection finished".toList ++ field "revision" d.revision ++
    field "lines" d.lineCount ++ field "blocks" x.blocks.length ++
    field "orphans" x.orphans.length ++ field "horizontal_rules" x.rules.length

def completed (c : CompletionContext) (count : Nat) : LogEvent where
  level := .trace
  target := "quill_meta::completion".toList
  message := "completion keyword=".toList ++ quote c.keyword.word ++ field "line" c.line ++
    field "candidates" count

def ofDetection (rules : DetectionRules) (d : Document) : List LogEvent :=
  let findings := Section.findings rules d.sections
  findings.filterMap ofFinding? ++ [detected d (Detection.ofFindings findings)]

def ofCompletion (d : Document) (c : CompletionReport) : List LogEvent :=
  lookedUp .hit d :: (c.context.map fun x => completed x c.candidates.length).toList

/-- The events of a report by a new engine, which detects once and then has the detection. -/
def ofReport (file : List Char) (rules : DetectionRules) (d : Document) (r : Report) :
    List LogEvent :=
  [inspecting file d, lookedUp .miss d] ++ ofDetection rules d ++ [lookedUp .hit d] ++
    r.fold.toList.map (fun _ => lookedUp .hit d) ++
    (r.completion.map (ofCompletion d)).getD []

end LogEvent

end MetaBlocks
