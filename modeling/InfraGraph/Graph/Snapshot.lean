import InfraGraph.Graph.Basic
import InfraGraph.Value.Json

/-!
# Snapshots: what is published of a graph

A snapshot is a graph as it is published: components without what they wait for and with each label
once, relations, health states and events, each event with the time at which it was made. It is
written as JSON or summed up in a line.
-/

namespace InfraGraph

/-- What is published of a graph. -/
structure Snapshot where
  components : List Component
  relations : List Relation
  health : List HealthState
  events : List Event
  deriving Inhabited

/-- The component with each label once, at its first place. -/
def Component.withDistinctLabels (c : Component) : Component :=
  { c with labels := c.labels.eraseDups }

/-- The snapshot of a graph. -/
def Graph.snapshot (g : Graph) : Snapshot where
  components := g.componentList.map Component.withDistinctLabels
  relations := g.relationList
  health := g.healthList
  events := g.events

namespace Snapshot

/-- What is published of a component. -/
def ofComponent (c : Component) : Value :=
  .map [("uid", .string c.uid), ("type", .string c.componentType), ("name", .string c.name),
    ("layer", .string c.layer), ("domain", .string c.domain),
    ("environment", .string c.environment), ("labels", .strings c.labels),
    ("identifiers", .strings c.identifiers), ("custom_properties", .map c.properties)]

/-- What is published of a relation. -/
def ofRelation (r : Relation) : Value :=
  .map [("external_id", .string r.externalId), ("source_id", .string r.source),
    ("target_id", .string r.target), ("type", .string r.relationType)]

/-- What is published of a health state. -/
def ofHealth (h : HealthState) : Value :=
  .map [("check_id", .string h.checkId), ("check_name", .string h.checkName),
    ("topo_identifier", .string h.topoIdentifier), ("value", .string h.value.text),
    ("message", .string h.message)]

/-- What is published of a link. -/
def ofLink (l : SourceLink) : Value := .map [("title", .string l.title), ("url", .string l.url)]

/-- What is published of an event. -/
def ofEvent (e : Event) : Value :=
  .map [("event_type", .string e.eventType), ("title", .string e.title),
    ("message", .string e.message), ("tags", .strings e.tags),
    ("timestamp", .string e.timestamp),
    ("context", .map [("category", .string e.category.text), ("data", .map e.data),
      ("element_identifiers", .strings e.identifiers),
      ("source_links", .list (e.links.map ofLink))])]

/-- All that is published. -/
def toValue (s : Snapshot) : Value :=
  .map [("components", .list (s.components.map ofComponent)),
    ("relations", .list (s.relations.map ofRelation)),
    ("health", .list (s.health.map ofHealth)),
    ("events", .list (s.events.map ofEvent))]

/-- A snapshot on one line of JSON. -/
def json (s : Snapshot) : String := s.toValue.json

/-- A snapshot as indented JSON. -/
def prettyJson (s : Snapshot) : String := s.toValue.prettyJson

/-- How much a snapshot holds. -/
def summary (s : Snapshot) : String :=
  toString s.components.length ++ " components, " ++ toString s.relations.length ++ " relations, "
    ++ toString s.health.length ++ " health states, " ++ toString s.events.length ++ " events"

end Snapshot

end InfraGraph
