import InfraGraph.Sources.Path

/-!
# Disks

Source files are found and read on a disk. What is done with them does not depend on how the disk is
reached, so a disk is given by its operations in any monad: telling directories from other things,
listing a directory, and reading a file. Each of them may fail, and so may every entry of a
directory that is listed, in two ways: it may not come, or it may not be known what it is.
-/

namespace InfraGraph

/-- Why a path cannot be looked at or read. -/
inductive FileError where
  | missing
  | notDirectory
  | isDirectory
  /-- A path or a name on it has too many bytes. -/
  | nameTooLong
  /-- A path cannot hold the byte zero. -/
  | nulInPath
  /-- The file is not valid UTF-8. -/
  | invalidText
  /-- Any other reason, in the words of the system. -/
  | other (reason : String)
  deriving DecidableEq, Repr, Inhabited

/-- The message of an error. -/
def FileError.message : FileError → String
  | missing => "No such file or directory (os error 2)"
  | notDirectory => "Not a directory (os error 20)"
  | isDirectory => "Is a directory (os error 21)"
  | nameTooLong => "File name too long (os error 36)"
  | nulInPath => "file name contained an unexpected NUL byte"
  | invalidText => "stream did not contain valid UTF-8"
  | other reason => reason

/-- The longest path in bytes. -/
def longestPath : Nat := 4095

/-- Why a path cannot be followed, whatever the disk holds. That it holds the byte zero is seen
before its length is. -/
def pathError? (path : Path) : Option FileError :=
  if path.bytes.contains 0 then some .nulInPath
  else if longestPath < path.bytes.length then some .nameTooLong
  else none

/-- An entry of a directory. -/
structure DirectoryEntry where
  /-- The name of the entry, which names neither the directory itself nor its parent. -/
  name : Path
  /-- Whether it is a regular file, or why that cannot be told. -/
  isFile : Except FileError Bool
  deriving Repr, Inhabited

/-- What comes when a directory is listed, in any order: entries, or reasons why none comes. -/
abbrev Listing := List (Except FileError DirectoryEntry)

/-- A disk that is reached in a monad. -/
structure Disk (m : Type → Type) where
  /-- Whether a directory is at a path. -/
  isDirectory : Path → m (Except FileError Bool)
  /-- The entries of the directory at a path. -/
  list : Path → m (Except FileError Listing)
  /-- The contents of the file at a path. -/
  read : Path → m (Except FileError ByteArray)

end InfraGraph
