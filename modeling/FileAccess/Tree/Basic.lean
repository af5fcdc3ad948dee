/-
  FileAccess/Tree/Basic.lean
  ==========================
  **A tree of files, directories and symbolic links.**

  A `Tree` is a root directory and the location, within it, of the current
  directory.  A location is the list of names that leads there from the root
  through directories only, so `..` drops the last name and stays at the root.

  A file is a regular file that is left alone.  What opening a directory finds is
  part of the tree, and so is what opening anything else finds: a device, or a
  regular file that may not be opened or cannot be read.
-/
import FileAccess.Target

namespace FileAccess

inductive Kind where
  | regular
  | directory
  | other
deriving DecidableEq, Repr

/-- A directory that has the size of one block. -/
def Target.oneBlock : Target :=
  .refusing ⟨4096, .ofSeconds 0⟩ .isDirectory .noDevice

inductive Node where
  | file (content : Bytes) (mtime : Timestamp)
  | directory (entries : List (Bytes × Node)) (opening : Except Errno Target := .ok .oneBlock)
  | link (target : Bytes)
  | special (isRegular : Bool) (opening : Except Errno Target)
deriving Inhabited

/-- The names from the root of a tree to a place in it. -/
abbrev Location := List Bytes

namespace Node

def emptyDirectory : Node :=
  .directory []

/-- The entries of a directory; no other node has any. -/
def entries : Node → List (Bytes × Node)
  | .directory entries _ => entries
  | _ => []

def child? (node : Node) (name : Bytes) : Option Node :=
  node.entries.lookup name

def at? (node : Node) : Location → Option Node
  | [] => some node
  | name :: names =>
    match node.child? name with
    | none => none
    | some child => child.at? names

def kind : Node → Kind
  | .file _ _ => .regular
  | .directory _ _ => .directory
  | .link _ => .other
  | .special isRegular _ => if isRegular then .regular else .other

/-- What opening a node finds.  A link itself cannot be opened. -/
def opening : Node → Except Errno Target
  | .file content mtime => .ok (.file content mtime)
  | .directory _ opening => opening
  | .link _ => .error .tooManyLinks
  | .special _ opening => opening

end Node

/-- A root directory, and where in it the current directory is. -/
structure Tree where
  root : Node
  current : Location

end FileAccess
