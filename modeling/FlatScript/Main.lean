import FlatScript.CommandLine

/-!
# The command

The outer layer of the command: it reads the arguments, the file and the standard input, and writes
what `CommandLine.Options.execute` makes of them.

The standard input is read only as far as the program asks for it.  A run that asks for a line
behind the end of what has been read starts over with one line more; since a run depends on its
input alone, what it has written before stays the beginning of what it writes.
-/

namespace FlatScript.CommandLine

/-- The number of a system error.  Some calls give it with a minus sign. -/
def errorNumber (code : UInt32) : UInt32 :=
  if code < 0x80000000 then code else 0 - code

/-- The fault behind a failure to read a file. -/
def FileFault.ofError (error : IO.Error) : FileFault :=
  match error with
  | .noFileOrDirectory .. => .notFound
  | .inappropriateType _ code _ =>
    if errorNumber code = 20 then .notDirectory else .isDirectory
  | _ => .other (toString error)

/-- The bytes of a file. -/
def readFile (name : String) : IO (Except FileFault (List UInt8)) := do
  try
    let bytes ← IO.FS.readBinFile name
    return .ok bytes.toList
  catch error =>
    return .error (FileFault.ofError error)

/-- The next line of the standard input, its line end included. -/
partial def readStdin (line : Array UInt8) : IO (Array UInt8) := do
  let bytes ← (← IO.getStdin).read 1
  let line := line ++ bytes.data
  if bytes.isEmpty || bytes.data.back? = some 10 then return line else readStdin line

/-- Executes options, reading the standard input line by line.  `shown` is how many characters of
the output have been written already. -/
partial def attend (options : Options) (content : Except FileFault String) (stdin : Array UInt8)
    (shown : Nat) : IO UInt32 := do
  let coloured ← (← IO.getStderr).isTty
  let stdout ← IO.getStdout
  match options.execute ampleFuel coloured content stdin.toList with
  | none =>
    IO.eprintln "error: the run did not end"
    return 1
  | some exit =>
    stdout.putStr (exit.stdout.drop shown).toString
    stdout.flush
    let line ← if exit.starved then readStdin #[] else pure #[]
    if line.isEmpty then
      IO.eprint exit.stderr
      return exit.status.toUInt32
    else
      attend options content (stdin ++ line) exit.stdout.length

/-- Writes what is left to be written and ends. -/
def finish (exit : Exit) : IO UInt32 := do
  IO.print exit.stdout
  IO.eprint exit.stderr
  return exit.status.toUInt32

/-- Answers arguments. -/
def respond (words : List String) : IO UInt32 := do
  match Request.ofArguments? words with
  | none => finish usageExit
  | some .help => finish helpExit
  | some .version => finish versionExit
  | some (.execute options) =>
    let bytes ← readFile options.file
    attend options (bytes >>= textOf) #[] 0

end FlatScript.CommandLine

/-- The command. -/
def main (words : List String) : IO UInt32 :=
  FlatScript.CommandLine.respond words
