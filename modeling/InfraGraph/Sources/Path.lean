import InfraGraph.Text.Utf8

/-!
# Paths

A path is made of bytes, as a disk holds it; a name is a path of one step. Most paths are written as
texts, but the name of an entry of a directory may be no text at all.

## Main results

* `display_ofText` — a path that is written as a text is shown as this text.
-/

namespace InfraGraph

/-- A path, or a name on one. -/
structure Path where
  bytes : List UInt8
  deriving DecidableEq, Repr, Inhabited

namespace Path

/-- What stands between the steps of a path. -/
def slash : UInt8 := 0x2F

/-- What stands before the extension of a name. -/
def dot : UInt8 := 0x2E

/-- The path that a text writes. -/
def ofText (s : String) : Path := ⟨Text.utf8 s.toList⟩

/-- A path as it is shown. -/
def display (path : Path) : String := String.ofList (Text.lossy path.bytes)

/-- A path that is written as a text is shown as this text. -/
theorem display_ofText (s : String) : (ofText s).display = s := by
  rw [display, ofText, Text.lossy_utf8, String.ofList_toList]

/-- The path of what has a name in a directory. -/
def join (directory name : Path) : Path :=
  match directory.bytes.getLast? with
  | some last =>
    if last = slash then ⟨directory.bytes ++ name.bytes⟩
    else ⟨directory.bytes ++ slash :: name.bytes⟩
  | none => name

/-- The extension of a name: what stands behind its last dot, unless nothing stands before it. -/
def extension? (name : Path) : Option (List UInt8) :=
  match name.bytes.reverse.span (· != dot) with
  | (back, _ :: _ :: _) => some back.reverse
  | _ => none

end Path

end InfraGraph
