/-!
# Diagnostics

Lines about the progress of a run, each with a tag for its level.  They are written only if they are
switched on, and the tag can be coloured for a terminal.
-/

namespace FlatScript

/-- The levels of diagnostics. -/
inductive Level where
  | info
  | debug
  | done
  | error
  deriving DecidableEq

namespace Level

/-- The tag of a level. -/
def tag : Level → String
  | .info => "[INFO]"
  | .debug => "[DEBUG]"
  | .done => "[DONE]"
  | .error => "[ERROR]"

/-- The number of a level's colour in a terminal: blue, yellow, green and red. -/
def colour : Level → Nat
  | .info => 34
  | .debug => 33
  | .done => 32
  | .error => 31

/-- The tag of a level.  If colours are wanted it stands between the codes that switch its colour on
and off. -/
def shownTag (level : Level) (coloured : Bool) : String :=
  if coloured then "\x1b[" ++ toString level.colour ++ "m" ++ level.tag ++ "\x1b[0m" else level.tag

end Level

/-- How diagnostics are written. -/
structure Diagnostics where
  enabled : Bool
  coloured : Bool := false
  deriving DecidableEq

/-- The line for a message, if diagnostics are switched on. -/
def Diagnostics.line? (diagnostics : Diagnostics) (level : Level) (message : String) :
    Option String :=
  if diagnostics.enabled then some (level.shownTag diagnostics.coloured ++ " " ++ message) else none

end FlatScript
