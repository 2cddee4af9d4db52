import InfraGraph.Definition.Keyword
import InfraGraph.Value.Text

/-!
# Semantic errors

What can be wrong with a text that follows the grammar. Every such error ends the work on the text.
-/

namespace InfraGraph

/-- What is wrong with a definition or with its place in the graph. -/
inductive SemanticError where
  /-- A property that an element must have is missing. -/
  | missingProperty (property : Keyword) (element : String)
  /-- A value has the wrong type; `source` names the element or the defaults it was taken from. -/
  | typeMismatch (property : Keyword) (expected found source : String)
  /-- A component is to be repeated a negative number of times. -/
  | negativeRepetition (element : String) (count : Int64)
  /-- The target of a relation is no component. -/
  | unresolvedRelation (target component : String)
  /-- A uid is taken already. -/
  | duplicateComponent (uid : String)
  /-- A relation is there already. -/
  | duplicateRelation (externalId : String)
  /-- A name belongs to several components. -/
  | ambiguousName (name : String) (count : Nat)
  /-- An event concerns no element. -/
  | emptyIdentifiers (event : String)
  /-- A link is not of the form `[description](url)`. -/
  | malformedLink (link event : String)
  /-- A health state is none of the three. -/
  | invalidHealthState (state element : String)
  /-- A code block could not be read or evaluated. -/
  | evaluation (property element expression : String) (errors : List String)
  deriving DecidableEq, Repr, Inhabited

/-- The message of an error. -/
def SemanticError.message : SemanticError → String
  | missingProperty property element =>
    "Property '" ++ property.text ++ "' is required on \x60" ++ element ++ "\x60."
  | typeMismatch property expected found source =>
    "Expected " ++ expected ++ " type for '" ++ property.text ++ "', but was " ++ found
      ++ " on \x60" ++ source ++ "\x60."
  | negativeRepetition element count =>
    "Invalid value for '" ++ Keyword.repetition.text ++ "' on \x60" ++ element
      ++ "\x60: repeat count must not be negative, got " ++ Value.intText count
  | unresolvedRelation target component =>
    "Failed to find related component '" ++ target ++ "'. Reference from component " ++ component
      ++ "."
  | duplicateComponent uid => "Component '" ++ uid ++ "' already exists."
  | duplicateRelation externalId => "Relation '" ++ externalId ++ "' already exists."
  | ambiguousName name count =>
    "Ambiguous name '" ++ name ++ "': " ++ toString count ++ " components share it."
  | emptyIdentifiers event =>
    "Event \x60" ++ event ++ "\x60 requires a non-empty 'identifiers' list."
  | malformedLink link event =>
    "Malformed link '" ++ link ++ "' on event \x60" ++ event
      ++ "\x60; expected '[description](url)'."
  | invalidHealthState state element =>
    "Invalid health state '" ++ state ++ "' on \x60" ++ element
      ++ "\x60; expected CLEAR, DEVIATING or CRITICAL."
  | evaluation property element expression errors =>
    "Failed to evaluate property '" ++ property ++ "' on \x60" ++ element ++ "\x60. Expression |\n "
      ++ expression ++ " \n |.\n Errors:\n " ++ "\n ".intercalate errors

end InfraGraph
