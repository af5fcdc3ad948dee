/-
  FileAccess/Tree/Lookup.lean
  ===========================
  **How the system finds what a path names.**

  The walk starts at the current directory, or at the root for an absolute path,
  and takes the segments of the path in order.  Every segment, the empty ones and
  `.` included, needs a directory to be taken in, so a trailing `/` asks for a
  directory too.  `..` goes to the directory above and stays at the root.  A name
  must exist.  A symbolic link is replaced by its target, which is walked from
  the directory that holds the link, and no more than `linkLimit` links are
  replaced in one walk.

  `advance` walks until it ends or meets a link; `walk` replaces the links.  Both
  recurse on what they consume: the segments, and the links still allowed.
-/
import FileAccess.Path.Normalize
import FileAccess.Path.Segments
import FileAccess.Tree.Basic

namespace FileAccess

/-- The system's answers about paths: what kind of thing is there, and what opening the path
    finds. -/
structure Lookup where
  kind : Bytes → Except Errno Kind
  target : Bytes → Except Errno Target

namespace Tree

open Bytes

def pathLimit : Nat := 4096

def nameLimit : Nat := 255

def linkLimit : Nat := 40

inductive Halt where
  | reached (place : Location)
  | link (holder : Location) (target : Bytes) (remaining : List Bytes)

def advance (root : Node) (place : Location) : List Bytes → Except Errno Halt
  | [] => .ok (.reached place)
  | segment :: remaining =>
    match root.at? place with
    | some (.directory entries _) =>
      if segment = [] ∨ segment = [dot] then advance root place remaining
      else if segment = [dot, dot] then advance root place.dropLast remaining
      else if segment.length > nameLimit then .error .nameTooLong
      else
        match entries.lookup segment with
        | none => .error .noEntry
        | some (.link target) => .ok (.link place target remaining)
        | some _ => advance root (place ++ [segment]) remaining
    | _ => .error .notDirectory

/-- The place where the walk along a path or a link's target starts: the root when
    it is absolute, else the given place. -/
def startOf (place : Location) (path : Bytes) : Location :=
  if Path.isAbsolute path then [] else place

def walk (root : Node) (links : Nat) (place : Location) (segments : List Bytes) :
    Except Errno Location :=
  match advance root place segments with
  | .error e => .error e
  | .ok (.reached place') => .ok place'
  | .ok (.link holder target remaining) =>
    match links with
    | 0 => .error .tooManyLinks
    | links + 1 =>
      walk root links (startOf holder target) (Path.segments target ++ remaining)
termination_by structural links

def locate (tree : Tree) (path : Bytes) : Except Errno Location :=
  if path = [] then .error .noEntry
  else if path.length ≥ pathLimit then .error .nameTooLong
  else walk tree.root linkLimit (startOf tree.current path) (Path.segments path)

def node? (tree : Tree) (path : Bytes) : Except Errno Node :=
  match tree.locate path with
  | .error e => .error e
  | .ok place =>
    match tree.root.at? place with
    | none => .error .noEntry
    | some node => .ok node

def find (tree : Tree) : Lookup where
  kind path := (tree.node? path).map Node.kind
  target path := (tree.node? path).bind Node.opening

end Tree

end FileAccess
