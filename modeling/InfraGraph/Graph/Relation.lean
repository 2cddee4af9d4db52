import InfraGraph.Graph.Component

/-!
# Relations

A relation is a directed edge between two components. It is known by its external id, which is
written from the uids of both.
-/

namespace InfraGraph

/-- A directed edge with a type. -/
structure Relation where
  externalId : String
  source : String
  target : String
  relationType : String
  deriving DecidableEq, Repr, Inhabited

/-- The edge from one component to another. -/
def Relation.between (source target relationType : String) : Relation :=
  ⟨InfraGraph.externalId source target, source, target, relationType⟩

end InfraGraph
