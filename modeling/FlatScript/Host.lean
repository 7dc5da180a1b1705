/-!
# Hosts

A host is what a running program can reach of the world outside: it takes text that is written and
gives lines of input.  Both may fail, and what a host has become by then is kept.

Two hosts are provided.  `MemoryHost` collects what is written and hands out lines given beforehand;
it can also be told to refuse writing after a number of writes.  `Console` collects what is written
and reads lines from bytes, as they come from a standard input.
-/

namespace FlatScript

/-- What can go wrong with input and output. -/
inductive HostError where
  /-- A line was asked for and there is no more input. -/
  | endOfInput
  /-- A line of input is not UTF-8. -/
  | notText
  /-- The host does not take what is written. -/
  | writeRefused
  deriving DecidableEq

/-- The message of a host error. -/
def HostError.message : HostError → String
  | .endOfInput => "input reached end of file"
  | .notText => "stream did not contain valid UTF-8"
  | .writeRefused => "write refused"

/-- An action on a host of type `σ`.  Also after a failure there is a host. -/
abbrev HostM (σ : Type) := EStateM HostError σ

/-- The types whose values are hosts. -/
class Host (σ : Type) where
  /-- Writes a text as it is. -/
  write : String → HostM σ Unit
  /-- Reads a line without its line end; there is none at the end of the input. -/
  readLine : HostM σ (Option String)

/-- A host whose output and input are texts. -/
structure MemoryHost where
  /-- What has been written so far. -/
  output : String := ""
  /-- The lines that are still to be read. -/
  input : List String := []
  /-- How many more writes are taken; any number if this is `none`. -/
  writesLeft : Option Nat := none
  deriving DecidableEq

namespace MemoryHost

/-- Appends to the output, as long as writes are left. -/
def write (text : String) : HostM MemoryHost Unit := fun host =>
  match host.writesLeft with
  | none => .ok () { host with output := host.output ++ text }
  | some 0 => .error .writeRefused host
  | some (left + 1) => .ok () { host with output := host.output ++ text, writesLeft := some left }

/-- Takes the first of the lines. -/
def readLine : HostM MemoryHost (Option String) := fun host =>
  .ok host.input.head? { host with input := host.input.tail }

instance : Host MemoryHost := ⟨write, readLine⟩

end MemoryHost

/-- A host whose input is a stream of bytes. -/
structure Console where
  /-- What has been written so far. -/
  output : String := ""
  /-- The bytes that are still to be read. -/
  input : List UInt8 := []
  deriving DecidableEq

namespace Console

/-- The byte that ends a line. -/
def newline : UInt8 := 10

/-- The first line of a stream of bytes, its line end included, and what is behind it. -/
def splitLine : List UInt8 → List UInt8 × List UInt8
  | [] => ([], [])
  | byte :: bytes =>
    if byte = newline then ([byte], bytes)
    else
      let parts := splitLine bytes
      (byte :: parts.1, parts.2)

/-- A text without the character at its end, if that is `c`. -/
def dropEnd (c : Char) (cs : List Char) : List Char :=
  if cs.getLast? = some c then cs.dropLast else cs

/-- A line without its line end: a newline, or a carriage return and a newline. -/
def trimLine (cs : List Char) : List Char :=
  if cs.getLast? = some '\n' then dropEnd '\r' cs.dropLast else cs

/-- Appends to the output. -/
def write (text : String) : HostM Console Unit := fun host =>
  .ok () { host with output := host.output ++ text }

/-- Takes the first line of the input.  A line that is not UTF-8 is taken as well. -/
def readLine : HostM Console (Option String) := fun host =>
  let parts := splitLine host.input
  let after := { host with input := parts.2 }
  if parts.1.isEmpty then .ok none after
  else
    match String.fromUTF8? parts.1.toByteArray with
    | some line => .ok (some (String.ofList (trimLine line.toList))) after
    | none => .error .notText after

instance : Host Console := ⟨write, readLine⟩

end Console

end FlatScript
