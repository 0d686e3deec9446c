import MetaBlocks.Bisect
import MetaBlocks.Block
import MetaBlocks.Catalog
import MetaBlocks.Catalog.Yaml
import MetaBlocks.Command
import MetaBlocks.Command.Help
import MetaBlocks.Command.Invocation
import MetaBlocks.Command.Viewport
import MetaBlocks.Completion
import MetaBlocks.Decoration
import MetaBlocks.Detection
import MetaBlocks.Document
import MetaBlocks.Engine
import MetaBlocks.Extent
import MetaBlocks.FileText
import MetaBlocks.Folding
import MetaBlocks.Json
import MetaBlocks.Json.Encode
import MetaBlocks.LineKind
import MetaBlocks.Load
import MetaBlocks.Log
import MetaBlocks.Log.Filter
import MetaBlocks.Main
import MetaBlocks.Number.Binary64
import MetaBlocks.Number.Decimal
import MetaBlocks.Processor
import MetaBlocks.Report
import MetaBlocks.Report.Json
import MetaBlocks.Report.Text
import MetaBlocks.Section
import MetaBlocks.Settings
import MetaBlocks.Settings.Yaml
import MetaBlocks.Span
import MetaBlocks.Style
import MetaBlocks.Text.Blank
import MetaBlocks.Text.Decimal
import MetaBlocks.Text.Digit
import MetaBlocks.Text.Extender
import MetaBlocks.Text.Printable
import MetaBlocks.Text.Quoted
import MetaBlocks.ValueType
import MetaBlocks.Yaml.CoreValue
import MetaBlocks.Yaml.Decode
import MetaBlocks.Yaml.Fault
import MetaBlocks.Yaml.Glyph
import MetaBlocks.Yaml.Mark
import MetaBlocks.Yaml.Node
import MetaBlocks.Yaml.Scalar
import MetaBlocks.Yaml.Stream
import MetaBlocks.Yaml.Tag
import MetaBlocks.Yaml.Token
import MetaBlocks.Proofs.Lines
import MetaBlocks.Proofs.Sections
import MetaBlocks.Proofs.Pairing
import MetaBlocks.Proofs.Blocks
import MetaBlocks.Proofs.EngineRuns
import MetaBlocks.Proofs.HostRuns
import MetaBlocks.Proofs.Bisection
import MetaBlocks.Proofs.Arrangement
import MetaBlocks.Proofs.Restriction
import MetaBlocks.Proofs.Visibility
import MetaBlocks.Proofs.Cuts
import MetaBlocks.Proofs.KeywordLines
import MetaBlocks.Proofs.CursorContexts
import MetaBlocks.Proofs.Correspondence
import MetaBlocks.Proofs.Acceptance
import MetaBlocks.Proofs.Continuation
import MetaBlocks.Proofs.Independence
import MetaBlocks.Proofs.Relocation
import MetaBlocks.Proofs.Composition
import MetaBlocks.Proofs.Rendering
import MetaBlocks.Proofs.Tiling
import MetaBlocks.Proofs.Grammar
import MetaBlocks.Proofs.LineEndings
import MetaBlocks.Proofs.Faultless
import MetaBlocks.Proofs.LineSearch
import MetaBlocks.Proofs.Folds
import MetaBlocks.Proofs.LineSpans
import MetaBlocks.Proofs.Nesting
import MetaBlocks.Proofs.Lookups
import MetaBlocks.Proofs.Literals
import MetaBlocks.Proofs.ProcessorRuns
import MetaBlocks.Proofs.Candidates
import MetaBlocks.Proofs.Positions
import MetaBlocks.Proofs.Numerals
import MetaBlocks.Proofs.ViewportText
import MetaBlocks.Proofs.Quoting
import MetaBlocks.Proofs.ReportText
import MetaBlocks.Proofs.Records
import MetaBlocks.Proofs.Integers
import MetaBlocks.Proofs.BlankTexts
import MetaBlocks.Proofs.SettingsOverlay
