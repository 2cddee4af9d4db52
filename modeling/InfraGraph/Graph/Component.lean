import InfraGraph.Text.Search
import InfraGraph.Value.Basic

/-!
# Components and the relations they wait for

A component carries the relations that its definition asks for until the relation pass turns them
into edges. A relation is written as its target, with a leading `<` if the edge points from the
target to the component, and with `|` and a type behind the target if it has one.

## Main results

* `nodup_identifiers_addIdentifier` — identifiers stay without repeats.
-/

namespace InfraGraph

/-- The external id of the edge from one component to another. -/
def externalId (source target : String) : String := source ++ " --> " ++ target

/-- A relation that a component asks for. -/
structure PendingRelation where
  /-- The uid of the component that asks for it. -/
  declaredBy : String
  /-- The target as written: a uid or a name. -/
  target : String
  relationType : String
  /-- Whether the edge points from the target to the component. -/
  reverse : Bool
  /-- The external id that the edge has if the target is written as a uid. -/
  externalId : String
  deriving DecidableEq, Repr, Inhabited

namespace PendingRelation

/-- The type of a relation that is written without one. -/
def defaultType : String := "uses"

/-- Reads a relation as written. A type is read only where there is exactly one `|`; otherwise the
target ends at the first one and the rest is ignored. -/
def read (declaredBy item : String) : PendingRelation :=
  let (reverse, written) := match item.toList with
    | '<' :: cs => (true, cs)
    | cs => (false, cs)
  let (target, relationType) := match Text.splitOn ['|'] written with
    | [target, type] => (String.ofList target, String.ofList type)
    | target :: _ => (String.ofList target, defaultType)
    | [] => ("", defaultType)
  { declaredBy, target, relationType, reverse
    externalId :=
      if reverse then InfraGraph.externalId target declaredBy
      else InfraGraph.externalId declaredBy target }

end PendingRelation

/-- A component of the infrastructure. -/
structure Component where
  uid : String
  componentType : String
  name : String
  layer : String
  domain : String
  environment : String
  labels : List String
  identifiers : List String
  properties : Entries Value
  pending : List PendingRelation
  deriving Inhabited

namespace Component

/-- What a component says where it says nothing about its layer, domain or environment. -/
def unknown : String := "Unknown"

/-- A component of a type of which nothing else is known. -/
def blank (componentType : String) : Component where
  uid := ""
  componentType
  name := ""
  layer := unknown
  domain := unknown
  environment := unknown
  labels := []
  identifiers := []
  properties := []
  pending := []

/-- The component with a label more. -/
def addLabel (c : Component) (label : String) : Component :=
  { c with labels := c.labels ++ [label] }

/-- The component with an identifier that it may have already. -/
def addIdentifier (c : Component) (identifier : String) : Component :=
  if c.identifiers.contains identifier then c
  else { c with identifiers := c.identifiers ++ [identifier] }

/-- The component with a custom property set. -/
def setProperty (c : Component) (key : String) (value : Value) : Component :=
  { c with properties := Entries.insert c.properties key value }

theorem nodup_identifiers_addIdentifier {c : Component} (h : c.identifiers.Nodup)
    (identifier : String) : (c.addIdentifier identifier).identifiers.Nodup := by
  unfold addIdentifier
  split
  · exact h
  · rename_i hmem
    simp only [List.contains_iff_mem] at hmem
    refine List.nodup_append.2 ⟨h, by simp, ?_⟩
    intro a ha b hb hab
    simp only [List.mem_singleton] at hb
    exact hmem (by rw [← hb, ← hab]; exact ha)

/-- The identifier that health states go by: the first one, or else the uid. -/
def topoIdentifier (c : Component) : String := c.identifiers.head?.getD c.uid

/-- The component as code blocks see it. -/
def toValue (c : Component) : Value :=
  .map [("uid", .string c.uid), ("type", .string c.componentType), ("name", .string c.name),
    ("layer", .string c.layer), ("domain", .string c.domain),
    ("environment", .string c.environment), ("labels", .strings c.labels),
    ("identifiers", .strings c.identifiers), ("properties", .map c.properties)]

end Component

end InfraGraph
