import FlatScript.Host
import FlatScript.Value
import Std.Data.TreeMap

/-!
# Builtin functions

A builtin function is an action on the host that takes values and yields one.  A program reaches it
by the name under which it is registered.  The standard builtins write a line and read a line.
-/

namespace FlatScript

/-- A builtin function of a host of type `σ`. -/
structure Builtin (σ : Type) where
  /-- The name under which it is registered. -/
  name : String
  /-- What it does with its arguments. -/
  run : List Value → HostM σ Value

/-- The text that stands for a builtin function. -/
def Builtin.text {σ : Type} (builtin : Builtin σ) : String :=
  "<native fn " ++ builtin.name ++ ">"

/-- The builtin functions that a program can call, by name. -/
abbrev Builtins (σ : Type) := Std.TreeMap String (Builtin σ)

/-- Registers a function under a name, in place of any other of that name. -/
def Builtins.register {σ : Type} (builtins : Builtins σ) (name : String)
    (run : List Value → HostM σ Value) : Builtins σ :=
  builtins.insert name ⟨name, run⟩

namespace Builtin

variable {σ : Type} [Host σ]

/-- The texts of values with single spaces between them. -/
def joined (args : List Value) : String :=
  " ".intercalate (args.map Value.text)

/-- Writes its arguments as one line. -/
def print (args : List Value) : HostM σ Value := do
  Host.write (joined args ++ "\n")
  return .none

/-- Writes its arguments, if there are any, and reads a line.  The end of the input is an error. -/
def input (args : List Value) : HostM σ Value := do
  unless args.isEmpty do
    Host.write (joined args)
  match ← Host.readLine with
  | some line => return .str line
  | none => throw .endOfInput

end Builtin

/-- The builtin functions of every program that does not choose its own. -/
def Builtins.standard {σ : Type} [Host σ] : Builtins σ :=
  ((∅ : Builtins σ).register "print" Builtin.print).register "input" Builtin.input

end FlatScript
