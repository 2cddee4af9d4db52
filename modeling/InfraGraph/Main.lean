import InfraGraph.CommandLine.Run
import Std.Time.DateTime.PlainDateTime
import Std.Time.DateTime.Timestamp
import Std.Time.Format

/-!
# The program

The command line on the disk of the system. Only this module does input and output; what is done
with it is decided in `CommandLine.Run`.
-/

namespace InfraGraph

/-- The number of an error of the system, whose sign depends on who reports it. -/
def errorNumber (code : UInt32) : Nat := min code.toNat (0 - code).toNat

/-- The reason that the system gives for an error. -/
def reasonOf : IO.Error → FileError
  | .noFileOrDirectory .. => .missing
  | .inappropriateType _ code _ => if errorNumber code = 21 then .isDirectory else .notDirectory
  | e@(.invalidArgument _ code _) =>
    if errorNumber code = 36 then .nameTooLong else .other (toString e)
  | e => .other (toString e)

/-- An action of the system on a path, with its error as a value. -/
def attempt {α : Type} (path : Path) (action : IO α) : IO (Except FileError α) := do
  match pathError? path with
  | some cause => return .error cause
  | none =>
    match ← action.toBaseIO with
    | .ok a => return .ok a
    | .error e => return .error (reasonOf e)

/-- The disk of the system, which takes paths and gives names as texts. -/
def systemDisk : Disk IO where
  isDirectory path := attempt path do
    let here ← IO.currentDir
    let place := { here with toString := path.display }
    return (← place.metadata).type == .dir
  list path := attempt path do
    let here ← IO.currentDir
    let place := { here with toString := path.display }
    (← place.readDir).toList.mapM fun e => do
      let name := Path.ofText e.fileName
      let isFile ← attempt (path.join name) do return (← e.path.symlinkMetadata).type == .file
      return .ok ⟨name, isFile⟩
  read path := attempt path (IO.FS.readBinFile path.display)

/-- The clock of the system, which shows one time for all events of a source. -/
def systemClock : IO Clock := do
  let t ← Std.Time.Timestamp.now
  let wall := Std.Time.WallTime.ofNanoseconds t.toNanosecondsSinceUnixEpoch
  let shown := (Std.Time.PlainDateTime.ofWallTime wall).toLeanDateTimeString ++ "Z"
  return fun _ => shown

end InfraGraph

/-- Runs the command line. -/
def main (arguments : List String) : IO UInt32 := do
  let o ← InfraGraph.CommandLine.run InfraGraph.systemDisk InfraGraph.systemClock arguments
  if let some text := o.text then IO.println text
  if let some complaint := o.complaint then IO.eprintln complaint
  return o.code
