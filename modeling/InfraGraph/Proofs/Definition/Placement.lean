import InfraGraph.Definition.Basic

/-!
# Definitions without their places

Every part of a definition keeps the span it was read from. Two texts that differ in their blanks
only define the same, apart from these spans: `unplaced` moves every part to the start of the text,
and `untyped` leaves out the texts of component types too, which are cut out of the text itself.

## Main results

* `Definitions.unplaced_eq_of_untyped` — the texts of the component types are all that `untyped`
  leaves out.
-/

namespace InfraGraph.Definition

/-- A part that stands nowhere in particular. -/
def nowhere {α : Type} (a : α) : Spanned α := ⟨⟨0, 0⟩, a⟩

@[simp] theorem node_nowhere {α : Type} (a : α) : (nowhere a).node = a := rfl

/-- The definition of a component whose parts stand nowhere in particular. -/
def ComponentDefinition.ofEntries (componentType : String) (entries : List (Keyword × Literal)) :
    Spanned ComponentDefinition :=
  nowhere ⟨nowhere componentType, entries.map fun e => nowhere ⟨nowhere e.1, nowhere e.2⟩⟩

mutual

/-- A literal without the places of its parts. -/
def Literal.unplaced : Literal → Literal
  | .list items => .list (unplacedItems items)
  | .object members => .object (unplacedMembers members)
  | l => l

/-- The items of a list without their places. -/
def unplacedItems : List (Spanned Literal) → List (Spanned Literal)
  | [] => []
  | ⟨_, item⟩ :: rest => nowhere item.unplaced :: unplacedItems rest

/-- The members of an object without their places. -/
def unplacedMembers :
    List (Spanned String × Spanned Literal) → List (Spanned String × Spanned Literal)
  | [] => []
  | (⟨_, key⟩, ⟨_, value⟩) :: rest =>
      (nowhere key, nowhere value.unplaced) :: unplacedMembers rest

end

/-- Items lose their places one by one. -/
theorem unplacedItems_eq_map (items : List (Spanned Literal)) :
    unplacedItems items = items.map fun i => nowhere i.node.unplaced := by
  induction items with
  | nil => rfl
  | cons i items ih => rw [unplacedItems, ih, List.map_cons]

/-- Members lose their places one by one. -/
theorem unplacedMembers_eq_map (members : List (Spanned String × Spanned Literal)) :
    unplacedMembers members =
      members.map fun m => (nowhere m.1.node, nowhere m.2.node.unplaced) := by
  induction members with
  | nil => rfl
  | cons m members ih => rw [unplacedMembers, ih, List.map_cons]

/-- A property without places. -/
def Property.unplaced (p : Property) : Property :=
  ⟨nowhere p.key.node, nowhere p.literal.node.unplaced⟩

/-- Properties without places. -/
def unplacedProperties (properties : List (Spanned Property)) : List (Spanned Property) :=
  properties.map fun p => nowhere p.node.unplaced

/-- A component definition without places. -/
def ComponentDefinition.unplaced (c : ComponentDefinition) : ComponentDefinition :=
  ⟨nowhere c.componentType.node, unplacedProperties c.properties⟩

/-- A component definition without the text of its type. -/
def ComponentDefinition.untyped (c : ComponentDefinition) : ComponentDefinition :=
  { c with componentType := { c.componentType with node := "" } }

/-- An event definition without places. -/
def EventDefinition.unplaced (e : EventDefinition) : EventDefinition :=
  ⟨nowhere e.kind.node, unplacedProperties e.properties⟩

namespace Definitions

/-- Definitions without places. -/
def unplaced (d : Definitions) : Definitions where
  defaults := d.defaults.map fun ps => nowhere (unplacedProperties ps.node)
  components := d.components.map fun c => nowhere c.node.unplaced
  events := d.events.map fun e => nowhere e.node.unplaced

/-- Definitions without the texts of the component types. -/
def untyped (d : Definitions) : Definitions :=
  { d with components := d.components.map fun c => { c with node := c.node.untyped } }

/-- The texts of the component types. -/
def types (d : Definitions) : List String := d.components.map fun c => c.node.componentType.node

end Definitions

/-- Components are the same up to places if they are so up to types, and have the same type. -/
theorem ComponentDefinition.unplaced_eq_of_untyped {c e : ComponentDefinition}
    (huntyped : c.unplaced.untyped = e.unplaced.untyped)
    (htype : c.componentType.node = e.componentType.node) : c.unplaced = e.unplaced := by
  have hproperties := congrArg ComponentDefinition.properties huntyped
  unfold ComponentDefinition.unplaced at hproperties ⊢
  rw [htype, show unplacedProperties c.properties = unplacedProperties e.properties from
    hproperties]

/-- Definitions are the same up to places if they are so up to types, and have the same types. -/
theorem Definitions.unplaced_eq_of_untyped {d e : Definitions}
    (huntyped : d.unplaced.untyped = e.unplaced.untyped) (htypes : d.types = e.types) :
    d.unplaced = e.unplaced := by
  have hdefaults := congrArg Definitions.defaults huntyped
  have hevents := congrArg Definitions.events huntyped
  change d.unplaced.defaults = e.unplaced.defaults at hdefaults
  change d.unplaced.events = e.unplaced.events at hevents
  have hcomponents : d.unplaced.components = e.unplaced.components := by
    have hboth := congrArg Definitions.components huntyped
    simp only [Definitions.untyped, Definitions.unplaced, List.map_map,
      Function.comp_def, node_nowhere] at hboth ⊢
    unfold Definitions.types at htypes
    generalize d.components = cs at hboth htypes
    generalize e.components = es at hboth htypes
    induction cs generalizing es with
    | nil =>
        cases es with
        | nil => rfl
        | cons e es => cases hboth
    | cons c cs ih =>
        cases es with
        | nil => cases hboth
        | cons e es =>
            simp only [List.map_cons, List.cons.injEq] at hboth htypes ⊢
            have hfirst := congrArg Spanned.node hboth.1
            exact ⟨congrArg nowhere
              (ComponentDefinition.unplaced_eq_of_untyped hfirst htypes.1),
              ih es hboth.2 htypes.2⟩
  calc d.unplaced
      = ⟨d.unplaced.defaults, d.unplaced.components, d.unplaced.events⟩ := rfl
    _ = e.unplaced := by rw [hdefaults, hcomponents, hevents]

end InfraGraph.Definition
