/-
  FileAccess/Tree/Edit.lean
  =========================
  **Changing a tree.**

  `put` makes a node at a path and whatever directories are missing on the way;
  a file put at a symbolic link is written where the link leads.  `remove` and
  `rename` act on the name itself and never follow a link in its place.  A change
  that the walk to its place does not allow leaves the tree as it is.
-/
import FileAccess.Tree.Lookup

namespace FileAccess

namespace Node

def setEntry (entries : List (Bytes × Node)) (name : Bytes) : Option Node → List (Bytes × Node)
  | none => entries.filter (fun e => e.1 != name)
  | some node =>
    if entries.any (fun e => e.1 == name) then
      entries.map (fun e => if e.1 == name then (name, node) else e)
    else entries ++ [(name, node)]

/-- The node with what is at a location below it replaced, or taken away.  Where
    the location leads through no directory, nothing changes. -/
def setAt (node : Node) (value : Option Node) : Location → Node
  | [] => value.getD node
  | [name] =>
    match node with
    | .directory entries opening => .directory (setEntry entries name value) opening
    | other => other
  | name :: names =>
    match node with
    | .directory entries opening =>
      match entries.lookup name with
      | none => node
      | some child => .directory (setEntry entries name (some (child.setAt value names))) opening
    | other => other

end Node

namespace Tree

open Bytes

/-- Walk the directories of a path, making those that are missing: the new root and
    the place reached. -/
def makeDirectories (root : Node) (place : Location) : List Bytes → Node × Location
  | [] => (root, place)
  | segment :: remaining =>
    if segment = [] ∨ segment = [dot] then makeDirectories root place remaining
    else if segment = [dot, dot] then makeDirectories root place.dropLast remaining
    else
      match walk root linkLimit place [segment] with
      | .ok place' => makeDirectories root place' remaining
      | .error _ =>
        makeDirectories (root.setAt (some .emptyDirectory) (place ++ [segment]))
          (place ++ [segment]) remaining

/-- The segments of a path that name something: empty ones and `.` left out. -/
def names (path : Bytes) : List Bytes :=
  (Path.segments path).filter fun s => s != [] && s != [dot]

/-- Put a node at a path, following at most `links` links in its place when it is a
    file. -/
def putFrom (root : Node) (place : Location) (node : Node) : Nat → Bytes → Node
  | links, path =>
    let (root', holder) := makeDirectories root (startOf place path) (names path).dropLast
    match (names path).getLast? with
    | none => root'
    | some name =>
      let here := holder ++ [name]
      match node, root'.at? here, links with
      | .file _ _, some (.link _), 0 => root'
      | .file _ _, some (.link target), links + 1 => putFrom root' holder node links target
      | .directory _ _, some _, _ => root'
      | _, _, _ => root'.setAt (some node) here

def put (tree : Tree) (path : Bytes) (node : Node) : Tree :=
  { tree with root := putFrom tree.root tree.current node linkLimit path }

/-- The location of the name that a path ends in, which need not exist. -/
def nameLocation (tree : Tree) (path : Bytes) : Except Errno Location :=
  match (names path).getLast? with
  | none => .error .noEntry
  | some name =>
    (walk tree.root linkLimit (startOf tree.current path) (names path).dropLast).map (· ++ [name])

def remove (tree : Tree) (path : Bytes) : Tree :=
  match tree.nameLocation path with
  | .error _ => tree
  | .ok place => { tree with root := tree.root.setAt none place }

/-- The tree with what one path names moved to another, in the place of what was
    there. -/
def rename (tree : Tree) (source path : Bytes) : Tree :=
  match tree.nameLocation source, tree.nameLocation path with
  | .ok old, .ok new =>
    match tree.root.at? old with
    | none => tree
    | some node =>
      if old = new then tree
      else { tree with root := (tree.root.setAt none old).setAt (some node) new }
  | _, _ => tree

end Tree

end FileAccess
