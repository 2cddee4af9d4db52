import InfraGraph.Definition.Grammar
import InfraGraph.Interpretation.Component
import InfraGraph.Interpretation.Event

/-!
# Source texts

A source text is put into a graph in three steps: all its components in order, then the relation
pass, then its events. The first error ends the work; what was done before stays in the graph. A
text that does not follow the grammar changes nothing. A clock says when the events were made.
-/

namespace InfraGraph.Interpretation

open Definition (Definitions Property Spanned ComponentDefinition EventDefinition)

/-- What a source text added to a graph. -/
structure Summary where
  components : Nat
  relations : Nat
  events : Nat
  deriving DecidableEq, Repr, Inhabited

/-- Adds the components of definitions and gives their number. -/
def addComponents (defaults : Option (List (Spanned Property))) :
    List (Spanned ComponentDefinition) → Work Graph Nat
  | [] => return 0
  | d :: rest => do
    let n ← addDefinition defaults d.node
    return n + (← addComponents defaults rest)

/-- Adds the events of definitions and gives their number. -/
def addEvents (clock : Clock) (defaults : Option (List (Spanned Property))) :
    List (Spanned EventDefinition) → Work Graph Nat
  | [] => return 0
  | d :: rest => do
    addEvent clock defaults d.node
    return 1 + (← addEvents clock defaults rest)

/-- Puts definitions into a graph. -/
def interpret (clock : Clock) (d : Definitions) : Work Graph Summary := do
  let defaults := d.defaults.map Spanned.node
  let components ← addComponents defaults d.components
  let relations ← Work.of Graph.resolveRelations
  let events ← addEvents clock defaults d.events
  return ⟨components, relations, events⟩

/-! ## Texts -/

/-- Why a source text could not be put into a graph. -/
inductive SourceError where
  /-- It does not follow the grammar. -/
  | unreadable (name : String) (text : List Char) (errors : List Reading.SyntaxError)
  /-- It follows the grammar, but something in it is wrong. -/
  | wrong (cause : SemanticError)
  deriving Inhabited

/-- A syntax error with the name of the text and the place in it. -/
def located (name : String) (text : List Char) (e : Reading.SyntaxError) : String :=
  name ++ ":" ++ Block.describe text e

/-- The message of an error. -/
def SourceError.message : SourceError → String
  | unreadable name text errors => "; ".intercalate (errors.map (located name text))
  | wrong cause => cause.message

/-- Puts a source text with a name into a graph: what it added or the error, and the graph after
it. -/
def interpretText (clock : Clock) (text name : String) (g : Graph) :
    Except SourceError Summary × Graph :=
  match Definitions.read text.toList with
  | .error errors => (.error (.unreadable name text.toList errors), g)
  | .ok d =>
    let (result, h) := (interpret clock d).run g
    (result.mapError .wrong, h)

end InfraGraph.Interpretation
