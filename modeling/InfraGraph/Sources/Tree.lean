import InfraGraph.Sources.Disk

/-!
# Directory trees

A disk in memory: a tree of directories and files. A path is followed step by step from the root,
which is also its own parent; a step other than by a name needs a directory, so a path with a slash
at its end does too. There is nothing outside the tree, hence nothing at an absolute path.
-/

namespace InfraGraph

/-- A file or a directory with named entries. -/
inductive Tree where
  | file (contents : ByteArray)
  | directory (entries : List (Path × Tree))
  deriving Inhabited

namespace Tree

/-- The entries of a directory with one replaced, or added at the end. -/
def setEntry (name : Path) (t : Tree) : List (Path × Tree) → List (Path × Tree)
  | [] => [(name, t)]
  | (k, u) :: rest => if k = name then (k, t) :: rest else (k, u) :: setEntry name t rest

/-- The entry of a directory with a name. -/
def child? (name : Path) : List (Path × Tree) → Option Tree
  | [] => none
  | (k, t) :: rest => if k = name then some t else child? name rest

/-- The entries of a directory; a file has none. -/
def entries : Tree → List (Path × Tree)
  | file _ => []
  | directory entries => entries

/-- The steps of a path behind one that has begun already and is held backwards. -/
def stepsFrom (step : List UInt8) : List UInt8 → List Path
  | [] => [⟨step.reverse⟩]
  | b :: rest =>
    if b = Path.slash then ⟨step.reverse⟩ :: stepsFrom [] rest else stepsFrom (b :: step) rest

/-- The steps of a path. -/
def steps (path : Path) : List Path := stepsFrom [] path.bytes

/-- Whether a step stays where it is. -/
def staysPut (step : Path) : Bool := step.bytes == [] || step.bytes == [Path.dot]

/-- Whether a step goes to the parent. -/
def goesUp (step : Path) : Bool := step.bytes == [Path.dot, Path.dot]

/-- The tree with another one put at the end of steps; directories on the way are made. What is
there already stays, unless it is a file. -/
def putAt (new : Tree) : List Path → Tree → Tree
  | [], old =>
    match new, old with
    | directory _, directory entries => directory entries
    | _, _ => new
  | step :: rest, old =>
    if staysPut step then putAt new rest old
    else
      let inside := (child? step old.entries).getD (directory [])
      directory (setEntry step (putAt new rest inside) old.entries)

/-- The tree with another one put at a path. -/
def put (root new : Tree) (path : Path) : Tree := putAt new (steps path) root

/-- The longest name in bytes. -/
def longestName : Nat := 255

/-- Follows steps from a place whose parents are given, the nearest first. -/
def follow (parents : List Tree) (here : Tree) : List Path → Except FileError Tree
  | [] => .ok here
  | step :: rest =>
    match here with
    | file _ => .error .notDirectory
    | directory entries =>
      if staysPut step then follow parents here rest
      else if goesUp step then
        match parents with
        | [] => follow [] here rest
        | parent :: more => follow more parent rest
      else if longestName < step.bytes.length then .error .nameTooLong
      else
        match child? step entries with
        | some t => follow (here :: parents) t rest
        | none => .error .missing

/-- What is at a path. -/
def at? (root : Tree) (path : Path) : Except FileError Tree :=
  match pathError? path with
  | some cause => .error cause
  | none =>
    match steps path with
    | ⟨[]⟩ :: _ => .error .missing
    | steps => follow [] root steps

/-- Whether a tree is a file. -/
def isFile : Tree → Bool
  | file _ => true
  | directory _ => false

/-- A tree as a disk. -/
def disk (root : Tree) : Disk Id where
  isDirectory path :=
    match root.at? path with
    | .error e => .error e
    | .ok here => .ok !here.isFile
  list path :=
    match root.at? path with
    | .error e => .error e
    | .ok (file _) => .error .notDirectory
    | .ok (directory entries) => .ok (entries.map fun e => .ok ⟨e.1, .ok e.2.isFile⟩)
  read path :=
    match root.at? path with
    | .error e => .error e
    | .ok (file contents) => .ok contents
    | .ok (directory _) => .error .isDirectory

end Tree

end InfraGraph
