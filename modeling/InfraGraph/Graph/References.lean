import InfraGraph.Graph.Basic

/-!
# References to components

A component is referred to by its uid or, failing that, by its name, which must then be its alone.

The relation pass turns what all components wait for into edges. It first takes everything from the
components, and then adds edge by edge; where one cannot be added it stops, and the edges before it
stay.
-/

namespace InfraGraph.Graph

/-- The uid that a reference means, if it means one. -/
def resolve? (g : Graph) (reference : String) : Except SemanticError (Option String) :=
  if g.hasComponent reference then .ok (some reference)
  else (g.componentNamed? reference).map fun c => c.map Component.uid

/-- The identifiers with every one that refers to a component replaced by its uid. The others may
refer to elements that are known elsewhere, and stay as they are. -/
def resolveIdentifiers (g : Graph) (identifiers : List String) :
    Except SemanticError (List String) :=
  identifiers.mapM fun identifier => do
    return (← g.resolve? identifier).getD identifier

/-! ## The relation pass -/

/-- What all components wait for, in order. -/
def pending (g : Graph) : List PendingRelation := g.componentList.flatMap Component.pending

/-- The graph whose components wait for nothing. -/
def withoutPending (g : Graph) : Graph :=
  { g with components := g.components.map fun e => (e.1, { e.2 with pending := [] }) }

/-- The edge that a pending relation asks for. -/
def edgeOf (g : Graph) (p : PendingRelation) : Except SemanticError Relation := do
  match ← g.resolve? p.target with
  | some target =>
    return if p.reverse then Relation.between target p.declaredBy p.relationType
      else Relation.between p.declaredBy target p.relationType
  | none => .error (.unresolvedRelation p.target p.declaredBy)

/-- Adds the edge that a pending relation asks for. -/
def connect (g : Graph) (p : PendingRelation) : Except SemanticError Relation × Graph :=
  match g.edgeOf p with
  | .error e => (.error e, g)
  | .ok r => g.addRelation r

/-- Adds the edges that pending relations ask for, up to the first that cannot be added: the number
of edges or the error, and the graph with the edges added. -/
def connectAll : List PendingRelation → Graph → Except SemanticError Nat × Graph
  | [], g => (.ok 0, g)
  | p :: rest, g =>
    match g.connect p with
    | (.error e, h) => (.error e, h)
    | (.ok _, h) =>
      let (added, final) := connectAll rest h
      (added.map (· + 1), final)

/-- The relation pass: the number of edges added or the error, and the graph after it. -/
def resolveRelations (g : Graph) : Except SemanticError Nat × Graph :=
  connectAll g.pending g.withoutPending

end InfraGraph.Graph
