/-!
# Files

The reasons for which a file cannot be read as text, and a small directory of files that is held in
memory.  Paths in it are resolved the way a file system resolves them: every name but the last has
to be a directory, one dot stays and two dots go up, and a slash at the end asks for a directory.
-/

namespace FlatScript.CommandLine

/-- Why a file cannot be read. -/
inductive FileFault where
  | notFound
  | notDirectory
  | isDirectory
  /-- Its content is not UTF-8. -/
  | notText
  /-- Anything else, in words. -/
  | other (description : String)
  deriving DecidableEq

/-- The words for a fault. -/
def FileFault.message : FileFault → String
  | .notFound => "No such file or directory (os error 2)"
  | .notDirectory => "Not a directory (os error 20)"
  | .isDirectory => "Is a directory (os error 21)"
  | .notText => "stream did not contain valid UTF-8"
  | .other description => description

/-- The bytes of a file as text. -/
def textOf (bytes : List UInt8) : Except FileFault String :=
  match String.fromUTF8? bytes.toByteArray with
  | some text => .ok text
  | none => .error .notText

/-- A directory that holds the given files, and the directories on the way to them.  Each file has
its path as the list of names on it. -/
structure FileTree where
  files : List (List String × List UInt8)

namespace FileTree

/-- The directory that holds files with the given paths. -/
def ofPaths (files : List (String × List UInt8)) : FileTree :=
  ⟨files.map fun file => ((file.1.splitOn "/").filter (! ["", "."].contains ·), file.2)⟩

/-- The bytes of the file at a place. -/
def file? (tree : FileTree) (place : List String) : Option (List UInt8) :=
  tree.files.lookup place

/-- Whether there is a directory at a place. -/
def isDirectory (tree : FileTree) (place : List String) : Bool :=
  place.isEmpty || tree.files.any fun file =>
    place.isPrefixOf file.1 && place.length < file.1.length

/-- Goes on from a place by one name.  `none` is a directory outside of the tree, where nothing is
known but that it is a directory. -/
def step (tree : FileTree) (place : Option (List String)) (name : String) :
    Except FileFault (Option (List String)) :=
  match place with
  | none => if name = "" ∨ name = "." ∨ name = ".." then .ok none else .error .notFound
  | some names =>
    if (tree.file? names).isSome then .error .notDirectory
    else if name = "" ∨ name = "." then .ok (some names)
    else if name = ".." then .ok (if names.isEmpty then none else some names.dropLast)
    else
      let inner := names ++ [name]
      if (tree.file? inner).isSome || tree.isDirectory inner then .ok (some inner)
      else .error .notFound

/-- The bytes of the file at a path. -/
def read (tree : FileTree) (path : String) : Except FileFault (List UInt8) := do
  if path.isEmpty then throw .notFound
  let start := if path.toList.head? = some '/' then none else some []
  match ← (path.splitOn "/").foldlM tree.step start with
  | none => throw .isDirectory
  | some place =>
    match tree.file? place with
    | some bytes => return bytes
    | none => throw .isDirectory

end FileTree

end FlatScript.CommandLine
