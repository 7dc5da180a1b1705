/-!
# Options

The arguments of the command name one file and choose what is done with it.  Options may stand
before and behind the file, and after two dashes every argument is the name of a file.  An option
that asks for help or for the version is answered as soon as it is met, whatever follows; arguments
that make no sense are a usage error.
-/

namespace FlatScript.CommandLine

/-- What is done with the file. -/
inductive Mode where
  /-- List its tokens. -/
  | tokens
  /-- Show its tree. -/
  | tree
  /-- Run it. -/
  | run
  deriving DecidableEq

/-- A file and what is done with it. -/
structure Options where
  file : String
  mode : Mode := .run
  /-- Whether diagnostics are written. -/
  debug : Bool := false
  deriving DecidableEq

/-- What the arguments ask for. -/
inductive Request where
  | help
  | version
  | execute (options : Options)
  deriving DecidableEq

/-- The arguments that have been read so far. -/
structure Arguments where
  file : Option String := none
  debug : Bool := false
  tokens : Bool := false
  tree : Bool := false
  deriving DecidableEq

namespace Arguments

/-- The request that the arguments make up: there is a file, and one mode at most was chosen. -/
def request? (arguments : Arguments) : Option Request := do
  let file ← arguments.file
  if arguments.tokens && arguments.tree then none
  else
    let mode := if arguments.tokens then .tokens else if arguments.tree then .tree else .run
    return .execute ⟨file, mode, arguments.debug⟩

/-- Adds the name of a file.  There is one at most, and it is not empty. -/
def addFile? (arguments : Arguments) (name : String) : Option Arguments :=
  if arguments.file.isSome || name.isEmpty then none else some { arguments with file := some name }

/-- Adds an option with a long name, each of which is given once at most. -/
def addFlag? (arguments : Arguments) (flag : String) : Option Arguments :=
  match flag with
  | "--debug" => if arguments.debug then none else some { arguments with debug := true }
  | "--lex" => if arguments.tokens then none else some { arguments with tokens := true }
  | "--parse" => if arguments.tree then none else some { arguments with tree := true }
  | _ => none

/-- Arguments that are all names of files. -/
def readFiles? (arguments : Arguments) : List String → Option Request
  | [] => arguments.request?
  | name :: names => do
    let more ← arguments.addFile? name
    more.readFiles? names

/-- Arguments among which there may be options. -/
def read? (arguments : Arguments) : List String → Option Request
  | [] => arguments.request?
  | "--" :: names => arguments.readFiles? names
  | "--help" :: _ => some .help
  | "--version" :: _ => some .version
  | word :: words =>
    match word.toList with
    | '-' :: '-' :: _ => do
      let more ← arguments.addFlag? word
      more.read? words
    | '-' :: 'h' :: _ => some .help
    | '-' :: 'V' :: _ => some .version
    | '-' :: _ :: _ => none
    | _ => do
      let more ← arguments.addFile? word
      more.read? words

end Arguments

/-- What the arguments of the command ask for; `none` is a usage error. -/
def Request.ofArguments? (words : List String) : Option Request :=
  Arguments.read? {} words

end FlatScript.CommandLine
