/-!
# Arguments of the command line

Arguments are options and paths in any order; `--` ends the options. An option has a long name and a
letter; letters can be put together, and a value stands behind the option as an argument of its own
or attached to it. An option is given at most once.
-/

namespace InfraGraph.CommandLine

/-- How the graph is printed. -/
inductive Format where
  | summary | json
  deriving DecidableEq, Repr, Inhabited

/-- What is asked for. -/
structure Arguments where
  paths : List String
  config : Option String
  extension : Option String
  format : Option Format
  verbose : Bool
  deriving DecidableEq, Repr, Inhabited

namespace Arguments

/-- Where nothing is asked for yet. -/
def empty : Arguments := ⟨[], none, none, none, false⟩

/-- A request of the command line. -/
inductive Request where
  | help
  | run (a : Arguments)
  deriving DecidableEq, Repr, Inhabited

/-- The options that take a value. -/
inductive Valued where
  | config | extension | format
  deriving DecidableEq, Repr, Inhabited

/-- The options. -/
inductive Switch where
  | valued (v : Valued)
  | verbose
  | help
  deriving DecidableEq, Repr, Inhabited

/-- The option with a long name. -/
def Switch.ofName? : String → Option Switch
  | "config" => some (.valued .config)
  | "extension" => some (.valued .extension)
  | "format" => some (.valued .format)
  | "verbose" => some .verbose
  | "help" => some .help
  | _ => none

/-- The option with a letter. -/
def Switch.ofLetter? : Char → Option Switch
  | 'c' => some (.valued .config)
  | 'x' => some (.valued .extension)
  | 'f' => some (.valued .format)
  | 'v' => some .verbose
  | 'h' => some .help
  | _ => none

/-- Adds a path, which is not empty. -/
def addPath? (a : Arguments) (path : String) : Option Arguments :=
  if path.isEmpty then none else some { a with paths := a.paths ++ [path] }

/-- Adds paths. -/
def addPaths? (a : Arguments) (paths : List String) : Option Arguments := paths.foldlM addPath? a

/-- Sets an option that takes a value. -/
def set? (a : Arguments) (v : Valued) (value : String) : Option Arguments :=
  match v with
  | .config =>
    if a.config.isSome ∨ value.isEmpty then none else some { a with config := some value }
  | .extension => if a.extension.isSome then none else some { a with extension := some value }
  | .format =>
    if a.format.isSome then none
    else
      match value with
      | "summary" => some { a with format := some .summary }
      | "json" => some { a with format := some .json }
      | _ => none

/-- Asks for more words on the way. -/
def setVerbose? (a : Arguments) : Option Arguments :=
  if a.verbose then none else some { a with verbose := true }

/-- What an argument leads to: it asks for help, it is done with, or its option waits for a value.
-/
inductive Effect where
  | help
  | done (a : Arguments)
  | waiting (a : Arguments) (v : Valued)

/-- Reads letters of options; those behind an option that takes a value are its value, perhaps after
an equals sign. -/
def readLetters? (a : Arguments) : List Char → Option Effect
  | [] => some (.done a)
  | c :: cs => do
    match ← Switch.ofLetter? c with
    | .help => return .help
    | .verbose => readLetters? (← a.setVerbose?) cs
    | .valued v =>
      match cs with
      | [] => return .waiting a v
      | '=' :: value => return .done (← a.set? v (String.ofList value))
      | value => return .done (← a.set? v (String.ofList value))

/-- Reads a long option without its hyphens. -/
def readLong? (a : Arguments) (cs : List Char) : Option Effect := do
  let (name, value?) := match cs.span (· != '=') with
    | (name, _ :: value) => (name, some value)
    | (name, []) => (name, none)
  match ← Switch.ofName? (String.ofList name), value? with
  | .help, none => return .help
  | .verbose, none => return .done (← a.setVerbose?)
  | .valued v, none => return .waiting a v
  | .valued v, some value => return .done (← a.set? v (String.ofList value))
  | _, some _ => none

/-- Reads one argument. -/
def readOne? (a : Arguments) (argument : String) : Option Effect :=
  match argument.toList with
  | '-' :: '-' :: cs => readLong? a cs
  | '-' :: c :: cs => readLetters? a (c :: cs)
  | _ => (a.addPath? argument).map .done

/-- Reads arguments, the first of which may be the value that an option waits for. A value does not
start with a hyphen, unless it is one. -/
def readFrom? (a : Arguments) (waiting : Option Valued) : List String → Option Request
  | [] => if waiting.isSome then none else some (.run a)
  | argument :: rest =>
    match waiting with
    | some v =>
      if argument.toList.head? = some '-' ∧ argument ≠ "-" then none
      else do readFrom? (← a.set? v argument) none rest
    | none =>
      if argument = "--" then (a.addPaths? rest).map .run
      else do
        match ← readOne? a argument with
        | .help => return .help
        | .done b => readFrom? b none rest
        | .waiting b v => readFrom? b (some v) rest

/-- Reads the arguments of the command line. -/
def read? (arguments : List String) : Option Request := readFrom? empty none arguments

end Arguments

end InfraGraph.CommandLine
