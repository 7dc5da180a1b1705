/-!
# Sources, locations and reports

Errors are found at byte offsets, and readers think in lines and columns.  A location counts both
from one, and its columns count characters.  A report is the one line that tells a reader about an
error.
-/

namespace FlatScript

/-- A line and a column, both counted from one. -/
structure Location where
  line : Nat
  column : Nat
  deriving DecidableEq

namespace Location

/-- The first place of a source. -/
def start : Location :=
  ⟨1, 1⟩

/-- The place behind a character that stands here. -/
def after (location : Location) (c : Char) : Location :=
  if c = '\n' then ⟨location.line + 1, 1⟩ else ⟨location.line, location.column + 1⟩

/-- The words for a location. -/
def text (location : Location) : String :=
  "line " ++ toString location.line ++ ", column " ++ toString location.column

/-- The place a number of bytes behind `location`, where the given text starts.  An offset inside a
character is the place behind that character, and one beyond the text is the end of the text. -/
def forward (location : Location) : List Char → Nat → Location
  | [], _ => location
  | c :: cs, offset =>
    if offset = 0 then location else (location.after c).forward cs (offset - c.utf8Size)

end Location

/-- A named text. -/
structure Source where
  content : String
  /-- The name in reports, usually the path of the file. -/
  name : String := "<input>"
  deriving DecidableEq

namespace Source

/-- The location of a byte offset. -/
def locate (source : Source) (offset : Nat) : Location :=
  Location.start.forward source.content.toList offset

/-- The report of a message at a byte offset, or about the source as a whole. -/
def report (source : Source) (message : String) (position : Option Nat) : String :=
  match position with
  | some offset =>
    "error: " ++ message ++ " at " ++ (source.locate offset).text ++ " (" ++ source.name ++ ")"
  | none => "error: " ++ message ++ " (" ++ source.name ++ ")"

end Source

end FlatScript
