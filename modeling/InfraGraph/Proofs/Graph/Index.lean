import InfraGraph.Proofs.Graph.Operation
import Mathlib.Data.List.Basic

/-!
# The index of names agrees with the components

The graph keeps two things about its components that are updated by hand: the components by uid, and
the uids by name. `Indexed` says that the second one is what a scan of the first one gives; every
operation keeps it, so that the look-ups by name, which go through the index, find exactly what a
scan finds.

## Main results

* `Indexed.apply` — every operation keeps the index in step, whether it succeeds or not.
* `componentNamed?_eq_sole`, `componentOfType?_eq_sole` — the look-ups by name are scans.
* `lookups_eq_scan` — so they are after every run of operations.
-/

namespace InfraGraph.Graph

/-- The components of a name, in the order in which they were added. -/
def named (g : Graph) (name : String) : List Component :=
  g.componentList.filter fun c => c.name == name

/-- The only one of the components that a scan finds, or the error that counts
them. -/
def sole (label : String) :
    List Component → Except SemanticError (Option Component)
  | [] => .ok none
  | [c] => .ok (some c)
  | cs => .error (.ambiguousName label cs.length)

/-- Every map of the graph is keyed by a field of its values, and the index of
names lists what a scan of the components finds. -/
structure Indexed (g : Graph) : Prop where
  components : Entries.KeyedBy Component.uid g.components
  relations : Entries.KeyedBy Relation.externalId g.relations
  health : Entries.KeyedBy HealthState.checkId g.health
  names : ∀ name, g.uidsOf name = (g.named name).map Component.uid

/-! ## Looking up through the index -/

section Lookup

variable {g : Graph}

/-- A graph has the uids of its components. -/
theorem hasComponent_iff (h : Indexed g) (uid : String) :
    g.hasComponent uid = true ↔ ∃ c ∈ g.componentList, c.uid = uid := by
  rw [hasComponent, Entries.hasKey_iff, h.components.mem_keys_iff,
    componentList]

/-- A component is found by its uid. -/
theorem component?_uid (h : Indexed g) {c : Component}
    (hc : c ∈ g.componentList) : g.component? c.uid = some c :=
  h.components.get?_key hc

/-- A look-up by name finds the sole component with this name. -/
theorem componentNamed?_eq_sole (h : Indexed g) (name : String) :
    g.componentNamed? name = sole name (g.named name) := by
  have hmem : ∀ c ∈ g.named name, c ∈ g.componentList := by
    intro c hc
    exact List.mem_of_mem_filter hc
  unfold componentNamed?
  rw [h.names]
  match hscan : g.named name with
  | [] => rfl
  | [c] =>
      have hc := component?_uid h (hmem c (by simp [hscan]))
      simp [sole, hc]
  | c :: d :: rest => simp [sole]

private theorem filterMap_uidsOf (h : Indexed g) (name : String) :
    (g.uidsOf name).filterMap g.component? = g.named name := by
  rw [h.names, List.filterMap_map]
  calc (g.named name).filterMap (g.component? ∘ Component.uid)
      = (g.named name).filterMap some := by
        refine List.filterMap_congr fun c hc => ?_
        exact component?_uid h (List.mem_of_mem_filter hc)
    _ = g.named name := List.filterMap_some

/-- A look-up by type and name finds the sole component of both. -/
theorem componentOfType?_eq_sole (h : Indexed g) (type name : String) :
    g.componentOfType? type name =
      sole (type ++ " " ++ name)
        ((g.named name).filter fun c => c.componentType == type) := by
  unfold componentOfType?
  rw [filterMap_uidsOf h]
  rcases (g.named name).filter _ with _ | ⟨c, _ | ⟨d, rest⟩⟩ <;> rfl

end Lookup

/-! ## Scans -/

/-- A new component comes last. -/
theorem componentList_addComponent {g h : Graph} {c : Component}
    (hadd : g.addComponent c = (.ok (), h)) :
    h.componentList = g.componentList ++ [c] := by
  rw [eq_append_of_addComponent hadd]
  simp [componentList]

/-- A new component is added under its own name only. -/
theorem named_addComponent {g h : Graph} {c : Component}
    (hadd : g.addComponent c = (.ok (), h)) (name : String) :
    h.named name = g.named name ++ if c.name = name then [c] else [] := by
  rw [named, componentList_addComponent hadd, List.filter_append]
  by_cases hname : c.name = name
  · simp [named, hname]
  · simp [named, hname]

theorem componentList_withoutPending (g : Graph) :
    g.withoutPending.componentList =
      g.componentList.map fun c => { c with pending := [] } := by
  simp [componentList, withoutPending]

theorem named_withoutPending (g : Graph) (name : String) :
    g.withoutPending.named name =
      (g.named name).map fun c => { c with pending := [] } := by
  rw [named, componentList_withoutPending, List.filter_map]
  rfl

/-! ## What keeps the index in step -/

namespace Indexed

/-- The empty graph is indexed. -/
theorem empty : Indexed empty where
  components := .nil _
  relations := .nil _
  health := .nil _
  names _ := rfl

variable {g h : Graph}

/-- A new component stands last in the scan and last in the index. -/
theorem addComponent (hg : Indexed g) {c : Component}
    (hadd : g.addComponent c = (.ok (), h)) : Indexed h := by
  have hscan := named_addComponent hadd
  obtain ⟨_, rfl⟩ := addComponent_eq_ok_iff.1 hadd
  refine
    { components := hg.components.insert c
      relations := hg.relations
      health := hg.health
      names := ?_ }
  intro name
  rw [hscan name, uidsOf, Entries.get?_insert]
  by_cases hname : c.name = name
  · simp [hname, hg.names name]
  · simp only [hname, if_false, List.append_nil]
    exact hg.names name

/-- A relation leaves the components alone. -/
theorem addRelation (hg : Indexed g) {r : Relation}
    (hadd : g.addRelation r = (.ok r, h)) : Indexed h := by
  obtain ⟨_, _, rfl⟩ := addRelation_eq_ok_iff.1 hadd
  exact { hg with relations := hg.relations.insert r }

theorem setHealth (hg : Indexed g) (state : HealthState) :
    Indexed (g.setHealth state) :=
  { hg with health := hg.health.insert state }

theorem addEvent (hg : Indexed g) (e : Event) : Indexed (g.addEvent e) :=
  { hg with }

/-- Taking what the components wait for changes neither uids nor names. -/
theorem withoutPending (hg : Indexed g) : Indexed g.withoutPending := by
  refine
    { components := ⟨?_, ?_⟩
      relations := hg.relations
      health := hg.health
      names := ?_ }
  · intro e he
    obtain ⟨e', he', rfl⟩ := List.mem_map.1 he
    exact hg.components.key_eq e' he'
  · have hkeys : Entries.keys g.withoutPending.components =
        Entries.keys g.components := by
      simp [Entries.keys, Graph.withoutPending, Function.comp_def]
    rw [hkeys]
    exact hg.components.nodup
  · intro name
    rw [named_withoutPending, List.map_map]
    exact hg.names name

/-- The relation pass leaves the graph indexed, also when it fails. -/
theorem resolveRelations (hg : Indexed g) : Indexed g.resolveRelations.2 :=
  connectAll_induction hg.withoutPending (fun _ _ _ hk hadd => hk.addRelation hadd) g.pending

/-- Every operation keeps the index in step, whether it succeeds or not. -/
theorem apply (hg : Indexed g) (op : Operation) : Indexed (op.apply g).2 := by
  cases op with
  | addComponent c => exact addComponent_induction hg fun _ hadd => hg.addComponent hadd
  | addRelation source target relationType =>
      exact addRelation_induction hg fun _ hadd => hg.addRelation hadd
  | setHealth state => exact hg.setHealth state
  | addEvent e => exact hg.addEvent e
  | resolveRelations => exact hg.resolveRelations

/-- Every run of operations leaves the graph indexed. -/
theorem run (hg : Indexed g) (ops : List Operation) : Indexed (g.run ops) :=
  run_induction hg (fun _ op h => h.apply op) ops

end Indexed

/-- After every run of operations, the look-ups by name find what a scan of the
components finds, every entry stands under the key it carries, and a rejected
component or relation changes nothing. -/
theorem lookups_eq_scan (ops : List Operation) (type name : String) :
    let g := empty.run ops
    g.componentNamed? name =
      sole name (g.componentList.filter fun c => c.name == name) ∧
    g.componentOfType? type name =
      sole (type ++ " " ++ name)
        (g.componentList.filter fun c =>
          c.name == name && c.componentType == type) ∧
    Entries.KeyedBy Component.uid g.components ∧
    Entries.KeyedBy Relation.externalId g.relations ∧
    Entries.KeyedBy HealthState.checkId g.health ∧
    (∀ c e h, (Operation.addComponent c).apply g = (.error e, h) → h = g) ∧
    (∀ source target relationType e h,
      (Operation.addRelation source target relationType).apply g =
        (.error e, h) → h = g) := by
  intro g
  have hg : Indexed g := Indexed.empty.run ops
  refine ⟨componentNamed?_eq_sole hg name, ?_, hg.components, hg.relations,
    hg.health, fun _ _ _ h => (addComponent_eq_error_iff.1 h).2.2,
    fun _ _ _ _ _ h => eq_of_apply_addRelation_eq_error h⟩
  rw [componentOfType?_eq_sole hg, named, List.filter_filter]
  simp only [Bool.and_comm]

end InfraGraph.Graph
