import InfraGraph.Graph.Component
import InfraGraph.Graph.Event
import Mathlib.Order.Defs.Unbundled

/-!
# Decorated components and events

Code can decorate the component or the event that is being built, but not turn it into another one:
what the graph knows it by stays, and what is listed in it is only added to at the end.

## Main results

* `Component.Decorated`, `Event.Decorated` — what a decoration leaves alone; both are preorders.
* `Component.decorated_addIdentifier` and the others like it — every single decoration is one.
-/

namespace InfraGraph

/-! ## Components -/

/-- The second component is the first one with decorations. -/
structure Component.Decorated (c d : Component) : Prop where
  uid : d.uid = c.uid
  componentType : d.componentType = c.componentType
  name : d.name = c.name
  pending : d.pending = c.pending
  labels : c.labels <+: d.labels
  identifiers : c.identifiers <+: d.identifiers
  nodup : c.identifiers.Nodup → d.identifiers.Nodup
  properties : Entries.keys c.properties <+: Entries.keys d.properties

namespace Component

theorem Decorated.refl (c : Component) : c.Decorated c :=
  ⟨rfl, rfl, rfl, rfl, List.prefix_rfl, List.prefix_rfl, id, List.prefix_rfl⟩

theorem Decorated.trans {c d e : Component} (h : c.Decorated d)
    (k : d.Decorated e) : c.Decorated e where
  uid := k.uid.trans h.uid
  componentType := k.componentType.trans h.componentType
  name := k.name.trans h.name
  pending := k.pending.trans h.pending
  labels := h.labels.trans k.labels
  identifiers := h.identifiers.trans k.identifiers
  nodup := k.nodup ∘ h.nodup
  properties := h.properties.trans k.properties

instance : IsPreorder Component Decorated where
  refl := .refl
  trans _ _ _ h k := h.trans k

/-- Adding a label decorates a component. -/
theorem decorated_addLabel (c : Component) (label : String) :
    c.Decorated (c.addLabel label) :=
  { Decorated.refl c with labels := List.prefix_append _ _ }

theorem decorated_addIdentifier (c : Component) (identifier : String) :
    c.Decorated (c.addIdentifier identifier) := by
  have hnodup : c.identifiers.Nodup → (c.addIdentifier identifier).identifiers.Nodup :=
    fun h => nodup_identifiers_addIdentifier h identifier
  unfold addIdentifier at hnodup ⊢
  split
  · exact .refl c
  · rename_i hnew
    rw [if_neg hnew] at hnodup
    exact { Decorated.refl c with
      identifiers := List.prefix_append _ _
      nodup := hnodup }

/-- Setting a property decorates it. -/
theorem decorated_setProperty (c : Component) (key : String) (value : Value) :
    c.Decorated (c.setProperty key value) :=
  { Decorated.refl c with properties := Entries.keys_prefix_insert _ _ _ }

/-- Layer, domain and environment are free. -/
theorem decorated_classify (c : Component) (layer domain environment : String) :
    c.Decorated { c with layer, domain, environment } :=
  { Decorated.refl c with }

end Component

/-! ## Events -/

/-- The second event is the first one with decorations. -/
structure Event.Decorated (e f : Event) : Prop where
  eventType : f.eventType = e.eventType
  title : f.title = e.title
  message : f.message = e.message
  timestamp : f.timestamp = e.timestamp
  category : f.category = e.category
  links : f.links = e.links
  tags : e.tags <+: f.tags
  identifiers : e.identifiers <+: f.identifiers
  data : Entries.keys e.data <+: Entries.keys f.data

namespace Event

theorem Decorated.refl (e : Event) : e.Decorated e :=
  ⟨rfl, rfl, rfl, rfl, rfl, rfl, List.prefix_rfl, List.prefix_rfl, List.prefix_rfl⟩

theorem Decorated.trans {e f g : Event} (h : e.Decorated f)
    (k : f.Decorated g) : e.Decorated g where
  eventType := k.eventType.trans h.eventType
  title := k.title.trans h.title
  message := k.message.trans h.message
  timestamp := k.timestamp.trans h.timestamp
  category := k.category.trans h.category
  links := k.links.trans h.links
  tags := h.tags.trans k.tags
  identifiers := h.identifiers.trans k.identifiers
  data := h.data.trans k.data

instance : IsPreorder Event Decorated where
  refl := .refl
  trans _ _ _ h k := h.trans k

theorem decorated_addTag (e : Event) (tag : String) :
    e.Decorated (e.addTag tag) :=
  { Decorated.refl e with tags := List.prefix_append _ _ }

theorem decorated_addIdentifier (e : Event) (identifier : String) :
    e.Decorated (e.addIdentifier identifier) := by
  unfold addIdentifier
  split
  · exact .refl e
  · exact { Decorated.refl e with identifiers := List.prefix_append _ _ }

theorem decorated_setData (e : Event) (key : String) (value : Value) :
    e.Decorated (e.setData key value) :=
  { Decorated.refl e with data := Entries.keys_prefix_insert _ _ _ }

end Event

end InfraGraph
