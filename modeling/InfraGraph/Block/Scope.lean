import InfraGraph.Graph.Basic

/-!
# What a code block sees

A code block sees the graph so far and the number of its repetition, which it cannot change, and a
subject, which it can decorate: the component or the event that is being built.
-/

namespace InfraGraph.Block

/-- What a code block sees and cannot change. -/
structure Surroundings where
  graph : Graph
  /-- Which of the repetitions of a definition is being built. -/
  repetition : Int64
  deriving Inhabited

/-- What a code block may decorate. -/
structure Subject where
  component : Option Component
  event : Option Event
  deriving Inhabited

/-- The names that stand for what a code block sees. -/
def bindings : List String := ["graph", "component", "event", "repeat_index"]

end InfraGraph.Block
