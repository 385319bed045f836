import PatternRules.Files.Probe

/-!
A tree of files below a working directory, and what a path leads to in it. Nothing is known about
what lies outside of the working directory, except that directories above it are there.
-/

namespace PatternRules

/-- The directories and files below a working directory, each with the names that lead to it. -/
structure FileTree where
  directories : List (List String)
  files : List (List String × ByteArray)

/-- What a path leads to. -/
inductive Finding where
  | directory
  /-- A file, with the names that lead to it. -/
  | file (names : List String) (content : ByteArray)
  /-- Nothing is there. -/
  | absent
  /-- A file stands where a directory should be. -/
  | notDirectory
  | nameTooLong
  /-- No name has a NUL in it. -/
  | nameInvalid

/-- A directory one can stand in. -/
inductive Standpoint where
  | inside (names : List String)
  | outside

namespace Standpoint

def parent : Standpoint → Standpoint
  | inside names => if names.isEmpty then outside else inside names.dropLast
  | outside => outside

/-- Where a path starts. -/
def start (path : String) : Standpoint :=
  if path.toList.head? = some '/' then outside else inside []

end Standpoint

namespace FileTree

def empty : FileTree := ⟨[], []⟩

/-- The most bytes a name may have. -/
def maxName : Nat := 255

/-- The least number of bytes that is too much for a path. -/
def pathLimit : Nat := 4096

/-! ## Looking -/

/-- Follows the components of a path. -/
def walk (tree : FileTree) : Standpoint → List String → Finding
  | _, [] => .directory
  | place, name :: rest =>
    if Path.isIdle name then walk tree place rest
    else if name = ".." then walk tree place.parent rest
    else if maxName < name.utf8ByteSize then .nameTooLong
    else
      match place with
      | .outside => .absent
      | .inside names =>
        let names := names ++ [name]
        if names ∈ tree.directories then walk tree (.inside names) rest
        else
          match tree.files.lookup names with
          | none => .absent
          | some content => if rest.isEmpty then .file names content else .notDirectory

/-- What a path leads to. -/
def find (tree : FileTree) (path : String) : Finding :=
  if path.toList.contains '\x00' then .nameInvalid
  else if pathLimit ≤ path.utf8ByteSize then .nameTooLong
  else if path.isEmpty then .absent
  else tree.walk (.start path) (Path.components path)

/-- What is known about the file at a path. -/
def status (tree : FileTree) : FileProbe := fun path =>
  match tree.find path with
  | .file .. => .found
  | .directory | .absent => .missing
  | .notDirectory | .nameTooLong | .nameInvalid => .unknown

/-! ## Changing -/

/-- Follows the components of a path and makes each directory on the way that is not there. The
second result is where they lead, unless a file is in the way or a directory cannot be made. -/
def descend (tree : FileTree) : Standpoint → List String → FileTree × Option Standpoint
  | place, [] => (tree, some place)
  | place, name :: rest =>
    if Path.isIdle name then descend tree place rest
    else if name = ".." then descend tree place.parent rest
    else
      match place with
      | .outside => (tree, none)
      | .inside names =>
        let names := names ++ [name]
        if names ∈ tree.directories then descend tree (.inside names) rest
        else if (tree.files.lookup names).isSome || maxName < name.utf8ByteSize then (tree, none)
        else descend { tree with directories := names :: tree.directories } (.inside names) rest

/-- Makes a directory and those that its path goes through. -/
def makeDirectory (tree : FileTree) (path : String) : FileTree :=
  (tree.descend (.start path) (Path.components path)).1

/-- Puts a file into a directory, in place of an earlier one. A directory of that name stays. -/
def putFile (tree : FileTree) (names : List String) (content : ByteArray) : FileTree :=
  if names ∈ tree.directories then tree
  else { tree with files := (names, content) :: tree.files.filter (·.1 != names) }

/-- Writes a file and makes the directories that its path goes through. A path that ends in no name
changes nothing. -/
def write (tree : FileTree) (path : String) (content : ByteArray) : FileTree :=
  let components := Path.components path
  let name := components.getLast?.getD ""
  if Path.isIdle name || name == ".." then tree
  else
    match tree.descend (.start path) components.dropLast with
    | (tree, some (.inside names)) => tree.putFile (names ++ [name]) content
    | (tree, _) => tree

/-- Deletes a file; the second result tells whether there was one. -/
def delete (tree : FileTree) (path : String) : FileTree × Bool :=
  match tree.find path with
  | .file names _ => ({ tree with files := tree.files.filter (·.1 != names) }, true)
  | _ => (tree, false)

end FileTree

end PatternRules
