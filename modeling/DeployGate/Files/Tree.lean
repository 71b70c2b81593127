import DeployGate.Files.Basic

/-!
# Directory trees

A tree of files below the present directory.  What lies outside of it is an empty
place: there are directories above, and nothing else in them.

Main results:

- `FileTree.files` turns a tree into what comes of looking at each path and of reading it.
-/

namespace DeployGate

/-- A file with its bytes, or a directory with named entries. -/
inductive FileTree where
  | file (bytes : List UInt8)
  | directory (entries : List (Text × FileTree))

namespace FileTree

/-- A directory without entries. -/
def empty : FileTree :=
  .directory []

/-- The number of bytes that a text takes. -/
def size (t : Text) : Nat :=
  t.foldl (fun n c => n + c.utf8Size) 0

/-- What some names lead to from a place with the given directories above it.  A name in
a directory has at most 255 bytes. -/
def walk : List FileTree → FileTree → List Text → Except FileFault FileTree
  | _, here, [] => .ok here
  | _, .file _, _ :: _ => .error .notDirectory
  | above, .directory entries, name :: names =>
    if name = ['.', '.'] then
      match above with
      | [] => walk [] empty names
      | parent :: above => walk above parent names
    else if 255 < size name then .error .nameTooLong
    else match entries.lookup name with
      | some t => walk (.directory entries :: above) t names
      | none => .error .missing

/-- What a path leads to.  A path has at most 4095 bytes. -/
def at? (t : FileTree) (path : Path) : Except FileFault FileTree :=
  if 4095 < size path.toText then .error .nameTooLong
  else walk [] (if path.isAbsolute then empty else t) path.names

/-- What each path of a tree reads as. -/
def read (t : FileTree) (path : Path) : Except FileFault (List UInt8) := do
  match ← t.at? path with
  | .file bytes => pure bytes
  | .directory _ => .error .isDirectory

/-- What comes of looking at each path of a tree and of reading it. -/
def files (t : FileTree) : Files :=
  .ofReads t.read fun path => (t.at? path).isOk

end FileTree

end DeployGate
