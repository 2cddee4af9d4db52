import InfraGraph.Block.Evaluation
import InfraGraph.Definition.Basic

/-!
# Layers: properties and their defaults

A property of an element is looked up in two layers, the element's own properties and the defaults
of the source text. Of several properties with one keyword the last counts, and one that is null
counts as missing. A property that holds one thing is taken from the first layer that has it; maps
and lists of both layers are merged.

Properties may hold code, so looking one up may fail and may decorate the subject that the code
sees.
-/

namespace InfraGraph

/-- Work that may fail. What was done to the state before a failure stays done. -/
abbrev Work (σ α : Type) := ExceptT SemanticError (StateM σ) α

/-- Work given as a function of the state. -/
def Work.of {σ α : Type} (f : σ → Except SemanticError α × σ) : Work σ α := ExceptT.mk f

namespace Interpretation

open Definition (Literal Property Spanned)
open Block (Surroundings Subject)

/-- Makes a step that only computes part of the work. -/
def ofResult {σ α : Type} : Except SemanticError α → Work σ α
  | .ok a => pure a
  | .error e => throw e

/-- The own properties of an element and the defaults. -/
structure Layers where
  own : List Property
  defaults : List Property
  /-- What the element is called in messages. -/
  element : String
  deriving Inhabited

/-- What the defaults are called in messages. -/
def defaultSource : String := "default"

/-! ## Evaluating literals -/

/-- Evaluates a code block under a keyword. -/
def evaluateCode (around : Surroundings) (key : Keyword) (source code : String) :
    Work Subject Value :=
  Work.of (Block.evaluateText around key.text source code)

mutual

/-- Evaluates a literal under a keyword, with all the code in it, in order. -/
def evaluate (around : Surroundings) (key : Keyword) (source : String) :
    Literal → Work Subject Value
  | .string s => return .string s
  | .int n => return .int n
  | .float x => return .float x
  | .bool b => return .bool b
  | .code code => evaluateCode around key source code
  | .list items => return .list (← evaluateItems around key source items)
  | .object members => return .map (← evaluateMembers around key source [] members)

/-- Evaluates the items of a list. -/
def evaluateItems (around : Surroundings) (key : Keyword) (source : String) :
    List (Spanned Literal) → Work Subject (List Value)
  | [] => return []
  | ⟨_, item⟩ :: rest => do
    let v ← evaluate around key source item
    return v :: (← evaluateItems around key source rest)

/-- Evaluates members and writes them into a map in order. -/
def evaluateMembers (around : Surroundings) (key : Keyword) (source : String)
    (done : Entries Value) :
    List (Spanned String × Spanned Literal) → Work Subject (Entries Value)
  | [] => return done
  | (name, ⟨_, value⟩) :: rest => do
    let v ← evaluate around key source value
    evaluateMembers around key source (Entries.insert done name.node v) rest

end

/-- The literal under a keyword; the last one counts. -/
def literal? (properties : List Property) (key : Keyword) : Option Literal :=
  (properties.reverse.find? fun p => p.key.node == key).map fun p => p.literal.node

/-- The value under a keyword in one layer, unless it is missing or null. -/
def layerValue? (around : Surroundings) (properties : List Property) (source : String)
    (key : Keyword) : Work Subject (Option Value) := do
  match literal? properties key with
  | none => return none
  | some l =>
    let v ← evaluate around key source l
    return if v.isNull then none else some v

namespace Layers

/-- The layers of an element. -/
def of (own : List (Spanned Property)) (defaults : Option (List (Spanned Property)))
    (element : String) : Layers where
  own := own.map Spanned.node
  defaults := (defaults.getD []).map Spanned.node
  element

/-- The layers with only some keywords among the defaults. -/
def withDefaultKeys (layers : Layers) (keys : List Keyword) : Layers :=
  { layers with defaults := layers.defaults.filter fun p => keys.contains p.key.node }

/-- The layers of the same element under another name. -/
def named (layers : Layers) (element : String) : Layers := { layers with element }

variable (around : Surroundings) (layers : Layers)

/-- The element's own value. -/
def own? (key : Keyword) : Work Subject (Option Value) :=
  layerValue? around layers.own layers.element key

/-- The default value. -/
def default? (key : Keyword) : Work Subject (Option Value) :=
  layerValue? around layers.defaults defaultSource key

/-! ## Properties that hold one thing -/

/-- The element's own value or else the default value, and where it was taken from. The defaults are
not evaluated where there is an own value. -/
def lookup? (key : Keyword) : Work Subject (Option (Value × String)) := do
  match ← layers.own? around key with
  | some v => return some (v, layers.element)
  | none => return (← layers.default? around key).map fun v => (v, defaultSource)

/-- The value of a property. -/
def value? (key : Keyword) : Work Subject (Option Value) := do
  return (← layers.lookup? around key).map Prod.fst

/-- The error for a value of the wrong type. -/
def mismatch (key : Keyword) (expected : String) (found : Value) (source : String) :
    SemanticError :=
  .typeMismatch key expected found.typeName source

/-- The string that a property holds. -/
def string? (key : Keyword) : Work Subject (Option String) := do
  match ← layers.lookup? around key with
  | none => return none
  | some (.string s, _) => return some s
  | some (v, source) => throw (mismatch key "string" v source)

/-- The string that a property holds, or a given one if it is missing. -/
def stringOr (key : Keyword) (fallback : String) : Work Subject String := do
  return (← layers.string? around key).getD fallback

/-- The string that a property holds, which must be there. -/
def requireString (key : Keyword) : Work Subject String := do
  match ← layers.string? around key with
  | some s => return s
  | none => throw (.missingProperty key layers.element)

/-- The integer that a property holds, or a given one if it is missing. -/
def intOr (key : Keyword) (fallback : Int64) : Work Subject Int64 := do
  match ← layers.lookup? around key with
  | none => return fallback
  | some (.int n, _) => return n
  | some (v, source) => throw (mismatch key "int" v source)

end Layers

/-! ## Properties that are merged -/

/-- What the layers may be merged into, by what is given for it. -/
inductive Merge : Type → Type where
  | map : Merge (Entries Value)
  | list : Merge (List Value)

namespace Merge

variable {α : Type}

/-- The type that is expected. -/
def expected : Merge α → String
  | map => "map"
  | list => "list"

/-- What a value of this type holds. -/
def part? : Merge α → Value → Option α
  | map, .map entries => some entries
  | list, .list items => some items
  | _, _ => none

/-- The part of a layer that holds nothing. -/
def absent : Merge α → α
  | map => []
  | list => []

/-- What the part of the defaults and the own part make together: own entries are written into the
default map, and own items stand before the default ones. -/
def join : Merge α → α → α → α
  | map, base, own => Entries.extend base own
  | list, base, own => own ++ base

/-- The part of a layer that holds this. A value of another type is refused. -/
def judge (key : Keyword) (source : String) (x : Merge α) :
    Option Value → Except SemanticError α
  | none => .ok x.absent
  | some v =>
    match x.part? v with
    | some a => .ok a
    | none => .error (Layers.mismatch key x.expected v source)

/-- The part that a layer contributes when it is looked at. -/
def contribute (key : Keyword) (source : String) (x : Merge α)
    (look : Work Subject (Option Value)) : Work Subject α := do
  ofResult (x.judge key source (← look))

/-- Merges both layers. The defaults are looked at first. -/
def run (around : Surroundings) (layers : Layers) (key : Keyword) (x : Merge α) :
    Work Subject α := do
  let base ← x.contribute key defaultSource (layers.default? around key)
  let own ← x.contribute key layers.element (layers.own? around key)
  return x.join base own

end Merge

namespace Layers

variable (around : Surroundings) (layers : Layers)

/-- The map of both layers. -/
def mergeMap (key : Keyword) : Work Subject (Entries Value) := Merge.map.run around layers key

/-- The list of both layers. -/
def mergeList (key : Keyword) : Work Subject (List Value) := Merge.list.run around layers key

/-- The strings that items are, or the error for the first that is none. -/
def stringsOf (key : Keyword) (source : String) : List Value → Except SemanticError (List String)
  | [] => .ok []
  | .string s :: rest => (stringsOf key source rest).map (s :: ·)
  | v :: _ => .error (mismatch key "string" v source)

/-- The list of both layers, all of whose items must be strings. -/
def mergeStrings (key : Keyword) : Work Subject (List String) := do
  let items ← layers.mergeList around key
  match stringsOf key layers.element items with
  | .ok strings => return strings
  | .error e => throw e

/-! ## Processors -/

/-- Runs the code block under a keyword of one layer, if there is one. -/
def runProcessor (properties : List Property) (source : String) (key : Keyword) :
    Work Subject Unit := do
  match literal? properties key with
  | some (.code code) => let _ ← evaluateCode around key source code
  | _ => pure ()

/-- Runs the processor of the element and then that of the defaults, under their keywords. What they
give is ignored, and so are processors that are no code blocks. -/
def runProcessors (ownKey defaultKey : Keyword) : Work Subject Unit := do
  runProcessor around layers.own layers.element ownKey
  runProcessor around layers.defaults defaultSource defaultKey

end Layers

end Interpretation

end InfraGraph
