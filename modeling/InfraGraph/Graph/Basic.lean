import InfraGraph.Graph.Event
import InfraGraph.Graph.Health
import InfraGraph.Graph.Relation
import InfraGraph.SemanticError

/-!
# The graph

The graph holds components by uid, relations by external id, health states by check id and events,
each in the order in which they came. An index of names saves looking through all components; it
lists for each name the uids of the components that carry it.

Components and relations are added only if they are new; if they are not, the graph stays as it is.
A health state replaces an earlier one of the same check.
-/

namespace InfraGraph

/-- A graph of components, relations, health states and events. -/
structure Graph where
  components : Entries Component
  /-- The uids of the components of a name. -/
  names : Entries (List String)
  relations : Entries Relation
  health : Entries HealthState
  events : List Event
  deriving Inhabited

namespace Graph

/-- The graph without anything. -/
def empty : Graph := ⟨[], [], [], [], []⟩

/-! ## Looking up -/

/-- The component with a uid. -/
def component? (g : Graph) (uid : String) : Option Component := Entries.get? g.components uid

/-- Whether there is a component with a uid. -/
def hasComponent (g : Graph) (uid : String) : Bool := Entries.hasKey g.components uid

/-- The uids of the components of a name. -/
def uidsOf (g : Graph) (name : String) : List String := (Entries.get? g.names name).getD []

/-- The only component of a name, if there is one. It is an error if there are more. -/
def componentNamed? (g : Graph) (name : String) : Except SemanticError (Option Component) :=
  match g.uidsOf name with
  | [] => .ok none
  | [uid] => .ok (g.component? uid)
  | uids => .error (.ambiguousName name uids.length)

/-- The only component of a type and a name, if there is one. It is an error if there are more. -/
def componentOfType? (g : Graph) (type name : String) : Except SemanticError (Option Component) :=
  match ((g.uidsOf name).filterMap g.component?).filter (·.componentType == type) with
  | [] => .ok none
  | [c] => .ok (some c)
  | cs => .error (.ambiguousName (type ++ " " ++ name) cs.length)

/-- The relation with an external id. -/
def relation? (g : Graph) (id : String) : Option Relation := Entries.get? g.relations id

/-- The health state of a check. -/
def healthState? (g : Graph) (checkId : String) : Option HealthState :=
  Entries.get? g.health checkId

/-- The components in order. -/
def componentList (g : Graph) : List Component := g.components.map Prod.snd

/-- The relations in order. -/
def relationList (g : Graph) : List Relation := g.relations.map Prod.snd

/-- The health states in order. -/
def healthList (g : Graph) : List HealthState := g.health.map Prod.snd

/-- Whether a component waits for relations. -/
def hasPending (g : Graph) : Bool := g.componentList.any fun c => !c.pending.isEmpty

/-! ## Adding -/

/-- Adds a component, whose uid must be new: whether that succeeds, and the graph after it. -/
def addComponent (g : Graph) (c : Component) : Except SemanticError Unit × Graph :=
  if g.hasComponent c.uid then (.error (.duplicateComponent c.uid), g)
  else (.ok (), { g with
    components := Entries.insert g.components c.uid c
    names := Entries.insert g.names c.name (g.uidsOf c.name ++ [c.uid]) })

/-- Adds a relation, whose external id must be new: the relation that is stored or the error, and
the graph after it. -/
def addRelation (g : Graph) (r : Relation) : Except SemanticError Relation × Graph :=
  if Entries.hasKey g.relations r.externalId then (.error (.duplicateRelation r.externalId), g)
  else (.ok r, { g with relations := Entries.insert g.relations r.externalId r })

/-- The graph with a health state, in the place of an earlier one of the same check. -/
def setHealth (g : Graph) (state : HealthState) : Graph :=
  { g with health := Entries.insert g.health state.checkId state }

/-- The graph with an event more. -/
def addEvent (g : Graph) (e : Event) : Graph := { g with events := g.events ++ [e] }

end Graph

end InfraGraph
