import InfraGraph.Configuration.Toml
import InfraGraph.Sources.Path

/-!
# Run configurations

A run is configured by the sources to read, files or directories, and by the extension of the files
that are read in directories. Both have a value of their own where nothing is said.
-/

namespace InfraGraph

/-- The configuration of a run. -/
structure Configuration where
  /-- Files or directories. -/
  sources : List Path
  /-- The extension of source files in directories, without the dot. -/
  extension : String
  deriving DecidableEq, Repr, Inhabited

namespace Configuration

/-- The configuration where nothing is said. -/
def standard : Configuration := ⟨[], "topo"⟩

/-- The configuration with a setting applied, if there is such a setting. -/
def withSetting? (c : Configuration) (key : List Char) : Toml.Setting → Option Configuration
  | .text s =>
    if key = "extension".toList then some { c with extension := String.ofList s } else none
  | .texts items =>
    if key = "sources".toList then
      some { c with sources := items.map fun item => .ofText (String.ofList item) }
    else none

/-- The configuration that a TOML document makes. -/
def read? (text : List Char) : Option Configuration := do
  (← Toml.read? text).foldlM (fun c s => c.withSetting? s.1 s.2) standard

/-- The configuration with further sources. -/
def withSources (c : Configuration) (paths : List Path) : Configuration :=
  { c with sources := c.sources ++ paths }

/-- The configuration with an extension, which may be written with dots before it. -/
def withExtension (c : Configuration) (extension : String) : Configuration :=
  { c with extension := String.ofList (extension.toList.dropWhile (· = '.')) }

end Configuration

end InfraGraph
