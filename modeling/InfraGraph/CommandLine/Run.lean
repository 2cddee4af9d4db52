import InfraGraph.CommandLine.Arguments
import InfraGraph.Graph.Snapshot
import InfraGraph.Sources.Loading

/-!
# Runs of the command line

A run reads the configuration, adds what the command line says, loads the sources and prints the
graph. It ends with code 0 if all went well, with 1 on an error, and with 2 if the command line
cannot be used or names no sources.
-/

namespace InfraGraph.CommandLine

/-- What a run prints and how it ends. -/
structure Output where
  code : UInt32
  /-- What is printed, without a newline at the end; nothing is printed on an error. -/
  text : Option String
  /-- What is said about an error. -/
  complaint : Option String
  deriving Repr, Inhabited

/-- How the program is used. -/
def usage : String :=
  "\n".intercalate [
    "Put infrastructure definitions into a graph of components",
    "",
    "Usage: infragraph [OPTIONS] [PATHS]...",
    "",
    "Arguments:",
    "  [PATHS]...  Source files or directories, appended to the configured sources",
    "",
    "Options:",
    "  -c, --config <CONFIG>        Configuration file (TOML format)",
    "  -x, --extension <EXTENSION>  Extension of source files inside directories",
    "  -f, --format <FORMAT>        Output format: summary or json [default: summary]",
    "  -v, --verbose                Debug logging",
    "  -h, --help                   Print help"]

/-- A snapshot as it is printed. -/
def print (s : Snapshot) : Format → String
  | .summary => s.summary
  | .json => s.prettyJson

variable {m : Type → Type} [Monad m]

/-- The configuration of a run. -/
def configure (disk : Disk m) (a : Arguments) : ExceptT RunError m Configuration := do
  let base ← match a.config with
    | some path => Sources.readConfiguration disk (.ofText path)
    | none => pure Configuration.standard
  let c := base.withSources (a.paths.map .ofText)
  return match a.extension with
    | some extension => c.withExtension extension
    | none => c

/-- Runs what the arguments ask for: nothing if there are no sources, or else what is printed. -/
def perform (disk : Disk m) (clock : m Clock) (a : Arguments) :
    ExceptT RunError m (Option String) := do
  let c ← configure disk a
  if c.sources.isEmpty then return none
  let g ← Sources.load disk clock c
  return some (print g.snapshot (a.format.getD .summary))

/-- Runs the command line. -/
def run (disk : Disk m) (clock : m Clock) (arguments : List String) : m Output := do
  match Arguments.read? arguments with
  | none => return ⟨2, none, some "The command line cannot be used; see --help."⟩
  | some .help => return ⟨0, some usage, none⟩
  | some (.run a) =>
    match ← (perform disk clock a).run with
    | .ok (some text) => return ⟨0, some text, none⟩
    | .ok none =>
      return ⟨2, none,
        some "No sources given. Pass files or directories, or set \x60sources\x60 in --config."⟩
    | .error e => return ⟨1, none, some ("Error: " ++ e.message)⟩

end InfraGraph.CommandLine
