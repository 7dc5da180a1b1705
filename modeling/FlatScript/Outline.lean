/-!
# Outlines

An outline is the shape of a piece of data as it is shown to a reader: leaves, labelled wrappers,
records with named fields, and lists.  It has two written forms.  The compact form is one line.  The
indented form puts every part on a line of its own, four spaces deeper than what it belongs to, and
ends each part with a comma.

Both forms are produced as a list of pieces in front of a given tail, so that a deep outline is
written in time proportional to its text.
-/

namespace FlatScript

/-- The shape of a piece of data as it is shown. -/
inductive Outline where
  /-- Text that is shown as it is. -/
  | leaf (text : String)
  /-- One part in parentheses behind a label. -/
  | wrap (label : String) (part : Outline)
  /-- Named parts in braces behind a label. -/
  | record (label : String) (fields : List (String × Outline))
  /-- Parts in brackets. -/
  | list (parts : List Outline)

namespace Outline

mutual

/-- The pieces of the compact form, in front of `tail`. -/
def compactPieces : Outline → List String → List String
  | .leaf text, tail => text :: tail
  | .wrap label part, tail => label :: "(" :: part.compactPieces (")" :: tail)
  | .record label fields, tail => label :: " \x7b " :: compactFields fields (" \x7d" :: tail)
  | .list parts, tail => "[" :: compactParts parts ("]" :: tail)

/-- The pieces of the fields of a record in compact form. -/
def compactFields : List (String × Outline) → List String → List String
  | [], tail => tail
  | (name, part) :: fields, tail =>
    name :: ": " ::
      part.compactPieces (if fields.isEmpty then tail else ", " :: compactFields fields tail)

/-- The pieces of the parts of a list in compact form. -/
def compactParts : List Outline → List String → List String
  | [], tail => tail
  | part :: parts, tail =>
    part.compactPieces (if parts.isEmpty then tail else ", " :: compactParts parts tail)

end

/-- The blanks at the start of a line at the given depth. -/
def margin (depth : Nat) : String :=
  String.ofList (List.replicate (4 * depth) ' ')

mutual

/-- The pieces of the indented form at the given depth, in front of `tail`. -/
def indentedPieces (depth : Nat) : Outline → List String → List String
  | .leaf text, tail => text :: tail
  | .wrap label part, tail =>
    label :: "(\n" :: margin (depth + 1) ::
      part.indentedPieces (depth + 1) (",\n" :: margin depth :: ")" :: tail)
  | .record label fields, tail =>
    label :: " \x7b\n" :: indentedFields (depth + 1) fields (margin depth :: "\x7d" :: tail)
  | .list parts, tail =>
    if parts.isEmpty then "[]" :: tail
    else "[\n" :: indentedParts (depth + 1) parts (margin depth :: "]" :: tail)

/-- The lines of the fields of a record in indented form. -/
def indentedFields (depth : Nat) : List (String × Outline) → List String → List String
  | [], tail => tail
  | (name, part) :: fields, tail =>
    margin depth :: name :: ": " ::
      part.indentedPieces depth (",\n" :: indentedFields depth fields tail)

/-- The lines of the parts of a list in indented form. -/
def indentedParts (depth : Nat) : List Outline → List String → List String
  | [], tail => tail
  | part :: parts, tail =>
    margin depth :: part.indentedPieces depth (",\n" :: indentedParts depth parts tail)

end

/-- The compact form. -/
def compact (outline : Outline) : String :=
  String.join (outline.compactPieces [])

/-- The indented form, without a newline at its end. -/
def indented (outline : Outline) : String :=
  String.join (outline.indentedPieces 0 [])

end Outline

end FlatScript
