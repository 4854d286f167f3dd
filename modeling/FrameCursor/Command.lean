import FrameCursor.Command.Arguments
import FrameCursor.Command.Directory
import FrameCursor.Config.Document

set_option autoImplicit false

namespace FrameCursor

def Level.label : Level → String
  | .info => "INFO"
  | .debug => "DEBUG"
  | .trace => "TRACE"

namespace Event

def Field.render : Field → String
  | .count n => toString n
  | .text s => s

def line (e : Event) : String :=
  let label := e.level.label
  "".pushn ' ' (5 - label.length) ++ label ++ " " ++ e.message
    ++ String.join (e.fields.map fun f => " " ++ f.1 ++ "=" ++ f.2.render)

end Event

namespace Command

def versionText : String := "roadway-words 0.1.0\n"

def usage : String := "Usage: roadway-words [OPTIONS] [TEXT]\n"

def helpText : String :=
  "Split text into whitespace-separated words, one frame per line\n\n" ++ usage ++ "\n"
    ++ "Arguments:\n"
    ++ "  [TEXT]  Text to split [default: \"" ++ Given.defaultText ++ "\"]\n\n"
    ++ "Options:\n"
    ++ "  -c, --config <CONFIG>  Optional TOML file with cursor options\n"
    ++ "  -v, --verbose...       Enable verbose logging (use multiple times for more verbosity)\n"
    ++ "  -h, --help             Print help\n"
    ++ "  -V, --version          Print version\n"

def Request.options : Request → Except Output Options
  | .split o => .ok o
  | .version => .error ⟨0, versionText, ""⟩
  | .help => .error ⟨0, helpText, ""⟩
  | .misuse => .error ⟨2, "", usage⟩

/-- The filter that lets through a level and those above it, by the name of the level. An empty
directive lets through errors, of which there are none. -/
def filter? (directive : String) : Option (Event → Bool) :=
  if directive = "trace" then some fun _ => true
  else if directive = "debug" then some fun e => e.level ≠ .trace
  else if directive = "info" then some fun e => e.level = .info
  else if ["warn", "error", "off", ""].contains directive then some fun _ => false
  else none

def tools : Tools where
  parse arguments := (Request.ofArguments arguments).options
  decode := Config.decode
  filter directive := (filter? directive).getD fun _ => false
  line := Event.line

/-- The output for arguments, when `read` reads files and the environment sets no filter. -/
def run (arguments : List String) (read : String → Except ReadFault String) : Output :=
  execute tools ⟨read, none⟩ arguments

end Command

end FrameCursor
