import ChainIR.Reading.Error

/-! # File trees

A file tree is a directory in memory, for runs of the program that touch no disk. A path is
followed part by part: from the root if it starts with a slash, and else from the place where the
program runs. Every part must be looked up in a directory, also `.`, `..` and the empty part
behind a final slash. -/

namespace ChainIR.Command

/-- A file or a directory. -/
inductive FileTree
  /-- A file with its bytes. -/
  | file (bytes : List UInt8)
  /-- A directory with its entries by name. -/
  | directory (entries : List (String × FileTree))

/-- A place in a file tree: what is there, and the directories above it, the nearest first. -/
structure Place where
  /-- The file or directory at the place. -/
  here : FileTree
  /-- The directories above the place; the last one is the root. -/
  above : List FileTree := []

namespace Place

/-- The longest name of a file, in bytes. -/
def nameLimit : Nat := 255

/-- The longest path, in bytes. -/
def pathLimit : Nat := 4095

/-- The root of the tree that the place is in. -/
def root (place : Place) : Place := ⟨place.above.getLast?.getD place.here, []⟩

/-- The directory above a place; the root is above itself. -/
def parent (place : Place) : Place :=
  match place.above with
  | [] => place
  | directory :: others => ⟨directory, others⟩

/-- Follow one part of a path. -/
def step (place : Place) (part : String) : Except InputError Place :=
  match place.here with
  | .file _ => .error .notDirectory
  | .directory entries =>
    if part = "" ∨ part = "." then .ok place
    else if part = ".." then .ok place.parent
    else if nameLimit < part.utf8ByteSize then .error .nameTooLong
    else
      match entries.lookup part with
      | some entry => .ok ⟨entry, place.here :: place.above⟩
      | none => .error .notFound

/-- The place at a path. -/
def follow (place : Place) (path : String) : Except InputError Place :=
  if pathLimit < path.utf8ByteSize then .error .nameTooLong
  else
    let start := if path.toList.head? = some '/' then place.root else place
    ((path.toList.splitOn '/').map String.ofList).foldlM step start

/-- The bytes of the file at a path. -/
def read (place : Place) (path : String) : Except InputError (List UInt8) := do
  match (← place.follow path).here with
  | .file bytes => return bytes
  | .directory _ => throw .isDirectory

end Place

end ChainIR.Command
