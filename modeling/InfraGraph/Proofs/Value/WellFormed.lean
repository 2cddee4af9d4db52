import InfraGraph.Graph.Component
import InfraGraph.Graph.Event
import InfraGraph.Proofs.Entries.Keyed

/-!
# Well-formed values

A map is a list of entries, and as a list it could hold a key twice. Values that do so nowhere, at
no depth, are well-formed. Since maps are only ever made by writing, one key after the other, no
others come up; but this has to be said where the order of the keys matters, because a list with a
key twice is read and written at its first place only.

## Main results

* `wellFormed_list`, `wellFormed_map` — lists and maps are well-formed by their parts.
* `wellFormed_insert`, `wellFormed_of_get?` — writing and reading stay among well-formed values.
-/

namespace InfraGraph

namespace Value

mutual

/-- In every map inside a value, each key stands once. -/
def WellFormed : Value → Prop
  | list items => WellFormedItems items
  | map entries => (Entries.keys entries).Nodup ∧ WellFormedEntries entries
  | _ => True

/-- All items of a list are well-formed. -/
def WellFormedItems : List Value → Prop
  | [] => True
  | v :: rest => WellFormed v ∧ WellFormedItems rest

/-- All values under the keys of a map are well-formed. -/
def WellFormedEntries : List (String × Value) → Prop
  | [] => True
  | (_, v) :: rest => WellFormed v ∧ WellFormedEntries rest

end

@[simp] theorem wellFormed_null : WellFormed null := trivial

@[simp] theorem wellFormed_bool (b : Bool) : (bool b).WellFormed := trivial

@[simp] theorem wellFormed_int (n : Int64) : (int n).WellFormed := trivial

@[simp] theorem wellFormed_float (x : Float) : (float x).WellFormed := trivial

@[simp] theorem wellFormed_string (s : String) : (string s).WellFormed := trivial

private theorem wellFormedItems_iff (items : List Value) :
    WellFormedItems items ↔ ∀ v ∈ items, v.WellFormed := by
  induction items with
  | nil => simp [WellFormedItems]
  | cons v rest ih => simp [WellFormedItems, ih]

private theorem wellFormedEntries_iff (entries : List (String × Value)) :
    WellFormedEntries entries ↔ ∀ e ∈ entries, e.2.WellFormed := by
  induction entries with
  | nil => simp [WellFormedEntries]
  | cons e rest ih => simp [WellFormedEntries, ih]

@[simp] theorem wellFormed_list {items : List Value} :
    (list items).WellFormed ↔ ∀ v ∈ items, v.WellFormed := wellFormedItems_iff items

@[simp] theorem wellFormed_map {entries : List (String × Value)} :
    (map entries).WellFormed ↔
      (Entries.keys entries).Nodup ∧ ∀ e ∈ entries, e.2.WellFormed := by
  rw [← wellFormedEntries_iff]
  rfl

@[simp] theorem wellFormed_strings (items : List String) : (strings items).WellFormed := by
  simp [strings]

/-- What is found in a well-formed map is well-formed. -/
theorem wellFormed_of_get? {entries : Entries Value} (h : (map entries).WellFormed) {key : String}
    {v : Value} (hv : Entries.get? entries key = some v) : v.WellFormed :=
  (wellFormed_map.1 h).2 _ (Entries.mem_of_get? hv)

theorem wellFormed_getD {entries : Entries Value} (h : (map entries).WellFormed) (key : String)
    {fallback : Value} (hfallback : fallback.WellFormed) :
    ((Entries.get? entries key).getD fallback).WellFormed := by
  cases hv : Entries.get? entries key with
  | none => exact hfallback
  | some v => exact wellFormed_of_get? h hv

/-- Writing a well-formed value leaves a map well-formed. -/
theorem wellFormed_insert {entries : Entries Value} (h : (map entries).WellFormed) (key : String)
    {v : Value} (hv : v.WellFormed) : (map (Entries.insert entries key v)).WellFormed := by
  rw [wellFormed_map] at h ⊢
  refine ⟨Entries.nodup_insert h.1 key v, fun e he => ?_⟩
  rcases Entries.mem_insert h.1 he with rfl | ⟨hold, _⟩
  · exact hv
  · exact h.2 e hold

end Value

/-! ## Components and events -/

/-- The custom properties of a component are well-formed. -/
def Component.WellFormed (c : Component) : Prop := (Value.map c.properties).WellFormed

/-- The data of an event are well-formed. -/
def Event.WellFormed (e : Event) : Prop := (Value.map e.data).WellFormed

/-- A well-formed component is a well-formed value. -/
theorem Component.WellFormed.toValue {c : Component} (h : c.WellFormed) :
    c.toValue.WellFormed := by
  refine Value.wellFormed_map.2 ⟨by simp, ?_⟩
  simp only [List.forall_mem_cons, Value.wellFormed_string, Value.wellFormed_strings, true_and]
  exact ⟨h, by simp⟩

/-- A well-formed event is a well-formed value. -/
theorem Event.WellFormed.toValue {e : Event} (h : e.WellFormed) : e.toValue.WellFormed := by
  refine Value.wellFormed_map.2 ⟨by simp, ?_⟩
  simp only [List.forall_mem_cons, Value.wellFormed_string, Value.wellFormed_strings, true_and]
  exact ⟨h, by simp⟩

end InfraGraph
