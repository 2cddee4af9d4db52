import InfraGraph.Configuration.Basic
import InfraGraph.Interpretation.Source
import InfraGraph.Sources.Disk

/-!
# Loading sources

A source is a file, or a directory that stands for the files in it with the configured extension,
ordered by name. All files are put into one graph, one after the other; the first error ends the
run. The clock is looked at anew for each of them.
-/

namespace InfraGraph

/-- What ends a run. -/
inductive RunError where
  /-- A source text could not be put into the graph. -/
  | source (cause : Interpretation.SourceError)
  /-- A source could not be looked at or read. -/
  | file (path : Path) (cause : FileError)
  /-- The configuration could not be read. -/
  | configurationFile (cause : FileError)
  /-- The configuration is no TOML document of known settings. -/
  | configurationText
  deriving Inhabited

/-- The message of an error. -/
def RunError.message : RunError → String
  | source cause => cause.message
  | file path cause => path.display ++ ": " ++ cause.message
  | configurationFile cause => "configuration error: Failed to read config file: " ++ cause.message
  | configurationText => "configuration error: Failed to parse config TOML"

/-- The message about a path that is written as a text tells this text. -/
theorem RunError.message_file (s : String) (cause : FileError) :
    (RunError.file (.ofText s) cause).message = s ++ ": " ++ cause.message := by
  change (Path.ofText s).display ++ ": " ++ cause.message = _
  rw [Path.display_ofText]

namespace Sources

/-! ## Finding files -/

/-- The names of the regular files with an extension in the directory at a path. The first entry
that does not come or of which it is not known what it is ends the search; the error then tells of
the directory or of the entry. -/
def namesIn (extension : String) (path : Path) : Listing → Except RunError (List Path)
  | [] => .ok []
  | .error e :: _ => .error (.file path e)
  | .ok entry :: rest =>
    match entry.isFile with
    | .error e => .error (.file (path.join entry.name) e)
    | .ok isFile => do
      let names ← namesIn extension path rest
      return if isFile && entry.name.extension? == some (Text.utf8 extension.toList) then
        entry.name :: names
      else names

/-- Whether a name comes before another one or is the same, by their bytes. -/
def nameLE (a b : Path) : Bool := decide (a.bytes ≤ b.bytes)

/-- The files in the directory at a path that are given by their names, ordered by these. -/
def filesIn (path : Path) (names : List Path) : List Path := (names.mergeSort nameLE).map path.join

variable {m : Type → Type} [Monad m]

/-- What an operation on a path gives, or the error with the path. -/
def onFile {α : Type} (path : Path) (result : m (Except FileError α)) : ExceptT RunError m α := do
  match ← (result : m _) with
  | .ok a => return a
  | .error e => throw (.file path e)

/-- The files that a source stands for: it is a file itself, or a directory with files in it. -/
def filesAt (disk : Disk m) (extension : String) (path : Path) :
    ExceptT RunError m (List Path) := do
  if ← onFile path (disk.isDirectory path) then
    let listing ← onFile path (disk.list path)
    return filesIn path (← ofExcept (namesIn extension path listing))
  else return [path]

/-- The files that sources stand for. -/
def collect (disk : Disk m) (extension : String) : List Path → ExceptT RunError m (List Path)
  | [] => return []
  | path :: rest => do
    let files ← filesAt disk extension path
    return files ++ (← collect disk extension rest)

/-! ## Reading files -/

/-- The text of a file, which must be valid UTF-8. -/
def textOf (contents : ByteArray) : Except FileError String :=
  match String.fromUTF8? contents with
  | some text => .ok text
  | none => .error .invalidText

/-- Reads the text of a file. -/
def readText (disk : Disk m) (path : Path) : m (Except FileError String) := do
  return (← disk.read path) >>= textOf

/-- Puts files into a graph, one after the other. -/
def loadInto (disk : Disk m) (clock : m Clock) (g : Graph) :
    List Path → ExceptT RunError m Graph
  | [] => return g
  | path :: rest => do
    let text ← onFile path (readText disk path)
    let times ← (clock : m _)
    match Interpretation.interpretText times text path.display g with
    | (.ok _, h) => loadInto disk clock h rest
    | (.error e, _) => throw (.source e)

/-- The graph of all configured sources. -/
def load (disk : Disk m) (clock : m Clock) (c : Configuration) : ExceptT RunError m Graph := do
  loadInto disk clock Graph.empty (← collect disk c.extension c.sources)

/-- Reads a configuration file. -/
def readConfiguration (disk : Disk m) (path : Path) : ExceptT RunError m Configuration := do
  match ← (readText disk path : m _) with
  | .error e => throw (.configurationFile e)
  | .ok text =>
    match Configuration.read? text.toList with
    | some c => return c
    | none => throw .configurationText

end Sources

end InfraGraph
