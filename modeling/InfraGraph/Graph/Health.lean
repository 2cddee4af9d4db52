import InfraGraph.Graph.Component
import InfraGraph.SemanticError
import InfraGraph.Text.Case

/-!
# Health states

A component has one of three health values, found by a check with a name. Health is written as the
name and the value with `|` between them, or as the value alone; the value is read in any case.

## Main results

* `ofText?_text` — every health value is read back from its spelling.
-/

namespace InfraGraph

/-- How well a component is. -/
inductive HealthValue where
  | clear | deviating | critical
  deriving DecidableEq, Repr, Inhabited

namespace HealthValue

/-- How a health value is written. -/
def text : HealthValue → String
  | clear => "CLEAR"
  | deviating => "DEVIATING"
  | critical => "CRITICAL"

/-- The health value that a text writes, in any case. -/
def ofText? (s : String) : Option HealthValue :=
  match String.ofList (Text.upper s.toList) with
  | "CLEAR" => some clear
  | "DEVIATING" => some deviating
  | "CRITICAL" => some critical
  | _ => none

/-- Every health value is read back from its text. -/
theorem ofText?_text (v : HealthValue) : ofText? v.text = some v := by
  cases v <;> decide +kernel

end HealthValue

/-- What a health check found on a component. -/
structure HealthState where
  checkId : String
  checkName : String
  topoIdentifier : String
  value : HealthValue
  message : String
  deriving DecidableEq, Repr, Inhabited

namespace HealthState

/-- The name of a check that has none. -/
def defaultCheck : String := "HealthCheck"

/-- The health of a component that says nothing about it. -/
def defaultHealth : String := "HealthCheck|CLEAR"

/-- Reads the name of a check and the value it found; the value stands behind the first `|`. -/
def readCheck (health element : String) : Except SemanticError (String × HealthValue) :=
  let (name, state) := match health.toList.span (· != '|') with
    | (name, _ :: state) => (String.ofList name, String.ofList state)
    | (_, []) => (defaultCheck, health)
  match HealthValue.ofText? state with
  | some value => .ok (name, value)
  | none => .error (.invalidHealthState state element)

/-- The id of the check that belongs to the components of a name. -/
def checkIdOf (name : String) : String := name ++ "_static_states"

/-- The health state of a component, from its health and message as written. -/
def ofComponent (c : Component) (health message : String) : Except SemanticError HealthState := do
  let (checkName, value) ← readCheck health c.name
  return ⟨checkIdOf c.name, checkName, c.topoIdentifier, value, message⟩

end HealthState

end InfraGraph
