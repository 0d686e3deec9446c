/-!
What the program says about itself.
-/

set_option autoImplicit false
set_option relaxedAutoImplicit false

namespace MetaBlocks.Command

def versionText : String := "quill-meta 0.3.0\n"

/-- How the program is used, line by line; `config` is the configuration that the environment
names. -/
def helpLines (config : String) : List String := [
  "Inspect metadata blocks in a Markdown file",
  "",
  "Usage: quill-meta [OPTIONS] <FILE>",
  "",
  "Arguments:",
  "  <FILE>  Markdown file to inspect",
  "",
  "Options:",
  "      --config <CONFIG>      Engine configuration (YAML) [env: QUILL_META_CONFIG=" ++ config ++
    "]",
  "      --catalog <CATALOG>    Template catalog for `QUILL:` completion (YAML list)",
  "      --viewport <VIEWPORT>  Char range to decorate, `<start>..<end>`. Defaults to the whole " ++
    "document",
  "      --fold <FOLD>          Print the fold range of the block opened on this 1-indexed line",
  "      --complete <COMPLETE>  Print completion candidates at this char offset",
  "      --format <FORMAT>      Output format [default: text] [possible values: text, json]",
  "  -h, --help                 Print help",
  "  -V, --version              Print version"]

def helpText (config : List Char) : List Char :=
  (helpLines (String.ofList config)).flatMap fun l => l.toList ++ ['\n']

end MetaBlocks.Command
