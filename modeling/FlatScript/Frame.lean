import FlatScript.Node
import FlatScript.Value
import Std.Data.TreeMap

/-!
# Frames

A frame is what one evaluation can see and change: the variables, the declared functions, and the
value of the last return statement.  A whole program has one frame, and so has every call: blocks
share the frame they stand in, and a call sees nothing of its caller.
-/

namespace FlatScript

/-- The state of one evaluation. -/
structure Frame where
  vars : Std.TreeMap String Value := ∅
  functions : Std.TreeMap String (Declaration Node) := ∅
  /-- The value of the last return statement, if there was one. -/
  pending : Option Value := none

namespace Frame

/-- A frame with the given variables and nothing else. -/
def ofVariables (vars : Std.TreeMap String Value) : Frame :=
  { vars := vars }

/-- The frame in which a call starts: each parameter has the argument at its place.  Parameters
without an argument are not variables, further arguments are dropped, and of parameters with one
name the last counts. -/
def ofCall (params : List String) (args : List Value) : Frame :=
  ofVariables (Std.TreeMap.ofList (params.zip args))

/-- Sets a variable. -/
def assign (frame : Frame) (name : String) (value : Value) : Frame :=
  { frame with vars := frame.vars.insert name value }

/-- Declares a function, in place of any other of its name. -/
def declare (frame : Frame) (declaration : Declaration Node) : Frame :=
  { frame with functions := frame.functions.insert declaration.name declaration }

/-- Records the value of a return statement. -/
def setPending (frame : Frame) (value : Value) : Frame :=
  { frame with pending := some value }

/-- The value that the evaluation returns. -/
def returned (frame : Frame) : Value :=
  frame.pending.getD .none

end Frame

end FlatScript
