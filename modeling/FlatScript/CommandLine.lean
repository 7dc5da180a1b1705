import FlatScript.CommandLine.FileTree
import FlatScript.CommandLine.Options
import FlatScript.Diagnostics
import FlatScript.Node.Outline
import FlatScript.Script

/-!
# The command line

The command reads a file and lists its tokens, shows its tree, or runs it.  All of it but the
reading of arguments, file and standard input is the function `Job.perform`: from what is to be
done, the content of the file and the bytes of the standard input to what is written and the exit
status.

On the way the command tells about its progress, if it was asked to.  An error ends it with a report
and the exit status one.
-/

namespace FlatScript.CommandLine

/-- How the command ends. -/
structure Exit where
  status : Nat
  stdout : String := ""
  stderr : String := ""
  /-- Whether it ended because a line was asked for behind the end of the input. -/
  starved : Bool := false
  deriving DecidableEq

/-- More fuel than a run can use up in practice. -/
def ampleFuel : Nat :=
  1000000000000000000

/-- The text that describes the command. -/
def helpText : String :=
  "\n".intercalate
    ["Run a quill program",
      "",
      "Usage: quill [OPTIONS] <FILE>",
      "",
      "Arguments:",
      "  <FILE>  Path to the source file",
      "",
      "Options:",
      "      --debug    Print diagnostics to stderr",
      "      --lex      Only lex the file and print its tokens",
      "      --parse    Lex and parse the file and print its syntax tree",
      "  -h, --help     Print help",
      "  -V, --version  Print version",
      ""]

/-- The end of a command that was asked for help. -/
def helpExit : Exit :=
  { status := 0, stdout := helpText }

/-- The end of a command that was asked for its version. -/
def versionExit : Exit :=
  { status := 0, stdout := "quill 0.1.0\n" }

/-- The end of a command that was asked for something that does not exist. -/
def usageExit : Exit :=
  { status := 2, stderr := "Usage: quill [OPTIONS] <FILE>\n" }

/-- What the command is to do with a source. -/
structure Job where
  source : Source
  mode : Mode
  diagnostics : Diagnostics
  /-- The bytes of the standard input. -/
  stdin : List UInt8 := []

namespace Job

/-- The line of a diagnostic, or nothing. -/
def note (job : Job) (level : Level) (message : String) : String :=
  match job.diagnostics.line? level message with
  | some line => line ++ "\n"
  | none => ""

/-- The end of a job with an error, behind what it has written so far. -/
def abort (job : Job) (log stdout : String) (error : Error) : Exit where
  status := 1
  stdout := stdout
  stderr := log ++ job.note .error "run aborted" ++ error.report job.source ++ "\n"
  starved := error = .eval (.host .endOfInput)

/-- Runs the tree of the source.  There is no end if the fuel does not suffice. -/
def runTree (job : Job) (fuel : Nat) (log : String) (program : Node) : Option Exit :=
  let log := log ++ job.note .info "running"
  match Script.runTree fuel program { input := job.stdin : Console } with
  | .ok outcome console =>
    let count := toString outcome.vars.size
    some {
      status := 0
      stdout := console.output
      stderr := log ++ job.note .debug (count ++ " top level variables") ++
        job.note .done ("return value: " ++ outcome.returned.text) }
  | .error (.failed error) console => some (job.abort log console.output error)
  | .error .outOfFuel _ => none

/-- Builds the tree of the source, and shows it or goes on. -/
def buildTree (job : Job) (fuel : Nat) (log : String) (tokens : List Token) : Option Exit :=
  let log := log ++ job.note .info "parsing"
  match Script.build tokens with
  | .error error => some (job.abort log "" error)
  | .ok program =>
    if job.mode = .tree then
      some { status := 0, stdout := program.outline.indented ++ "\n", stderr := log }
    else job.runTree fuel log program

/-- The listing of tokens, one on a line. -/
def listing (tokens : List Token) : String :=
  String.join (tokens.map fun token => token.listing ++ "\n")

/-- Does the whole job: cuts the source into tokens, and lists them or goes on. -/
def perform (job : Job) (fuel : Nat) : Option Exit :=
  let log := job.note .info ("lexing " ++ job.source.name)
  match Script.tokens job.source.content with
  | .error error => some (job.abort log "" error)
  | .ok tokens =>
    let log := log ++ job.note .debug (toString tokens.length ++ " tokens")
    if job.mode = .tokens then some { status := 0, stdout := listing tokens, stderr := log }
    else job.buildTree fuel log tokens

end Job

/-- Executes options on the content of the file, or tells why that cannot be read. -/
def Options.execute (options : Options) (fuel : Nat) (coloured : Bool)
    (content : Except FileFault String) (stdin : List UInt8) : Option Exit :=
  match content with
  | .error fault =>
    some {
      status := 1
      stderr := "error: could not read " ++ options.file ++ ": " ++ fault.message ++ "\n" }
  | .ok text =>
    Job.perform ⟨⟨text, options.file⟩, options.mode, ⟨options.debug, coloured⟩, stdin⟩ fuel

/-- Answers the arguments of the command, given how files are read. -/
def answer (fuel : Nat) (coloured : Bool) (read : String → Except FileFault (List UInt8))
    (words : List String) (stdin : List UInt8) : Option Exit :=
  match Request.ofArguments? words with
  | none => some usageExit
  | some .help => some helpExit
  | some .version => some versionExit
  | some (.execute options) =>
    options.execute fuel coloured (read options.file >>= textOf) stdin

end FlatScript.CommandLine
