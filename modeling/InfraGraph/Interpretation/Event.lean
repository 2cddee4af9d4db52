import InfraGraph.Graph.References
import InfraGraph.Interpretation.Layers

/-!
# Events from their definitions

An event is built property by property, like a component, and has the time at which that is begun.
Of the defaults it takes only the tags and the processor for events. It must concern at least one
element; identifiers that refer to components of the graph are replaced by their uids.
-/

namespace InfraGraph.Interpretation

open Definition (Property Spanned EventDefinition)
open Block (Surroundings Subject)

/-- What an event of a kind is. -/
def typeOf : EventKind → String × EventCategory
  | .elementPropertiesChanged => ("Element Properties Changed", .changes)

/-- The defaults that are meant for events. -/
def eventDefaultKeys : List Keyword := [.tags, .eventProcessor]

/-- Looks at properties of an event, which their code may decorate. -/
def onEvent {α : Type} (work : Work Subject α) : Work Event α :=
  Work.of fun e =>
    let (result, subject) := work.run ⟨none, some e⟩
    (result, subject.event.getD e)

/-- Adds links to an event, up to the first that is malformed. -/
def addLinks (title : String) : List String → Work Event Unit
  | [] => pure ()
  | link :: rest => do
    let l ← ofResult (SourceLink.read link title)
    modify fun e => { e with links := e.links ++ [l] }
    addLinks title rest

/-- Builds an event from its blank state. -/
def buildEvent (around : Surroundings) (layers : Layers) : Work Event Unit := do
  let title ← onEvent (layers.stringOr around .title Component.unknown)
  let named := layers.named title
  modify fun e => { e with title }
  let message ← onEvent (named.stringOr around .message "")
  modify fun e => { e with message }
  let tags ← onEvent (named.mergeStrings around .tags)
  modify fun e => { e with tags := e.tags ++ tags }
  let identifiers ← onEvent (named.mergeStrings around .identifiers)
  modify fun e => { e with identifiers := e.identifiers ++ identifiers }
  let links ← onEvent (named.mergeStrings around .links)
  addLinks title links
  let previous ← onEvent (named.mergeMap around .previous)
  let current ← onEvent (named.mergeMap around .current)
  modify fun e => (e.setData "old" (.map previous)).setData "new" (.map current)
  onEvent (named.runProcessors around .processor .eventProcessor)
  if (← get).identifiers.isEmpty then throw (.emptyIdentifiers title)
  let resolved ← ofResult (around.graph.resolveIdentifiers (← get).identifiers)
  modify fun e => { e with identifiers := resolved }

/-- The event of a definition, as it concerns a graph. -/
def eventOf (clock : Clock) (defaults : Option (List (Spanned Property))) (d : EventDefinition)
    (g : Graph) : Except SemanticError Event := do
  let layers := (Layers.of d.properties defaults d.kind.node.text).withDefaultKeys eventDefaultKeys
  let (type, category) := typeOf d.kind.node
  let begun := Event.blank type category (clock g.events.length)
  let (result, e) := (buildEvent ⟨g, 0⟩ layers).run begun
  let _ ← result
  return e

/-- Adds the event of a definition. -/
def addEvent (clock : Clock) (defaults : Option (List (Spanned Property))) (d : EventDefinition) :
    Work Graph Unit := do
  let e ← ofResult (eventOf clock defaults d (← get))
  modify fun g => g.addEvent e

end InfraGraph.Interpretation
