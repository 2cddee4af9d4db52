import InfraGraph.Proofs.Graph.Decoration
import InfraGraph.Proofs.Graph.Index
import InfraGraph.Proofs.Reading.Sequences
import Mathlib.Data.List.Forall2

/-!
# Graphs with decorated components

Two graphs may differ in nothing but the decorations of their components. Whatever the store does
goes by uids, names and external ids, and no decoration touches these; so every operation does the
same to both, and the relation pass connects the same components.

## Main results

* `Graph.Decorated.addComponent` — a decorated component is registered where the plain one is.
* `Graph.Decorated.resolve?_eq` — references mean the same in both graphs.
* `Graph.Decorated.resolveRelations` — the relation pass fares alike on both.
-/

namespace InfraGraph.Graph

/-- The second graph is the first one with decorated components. -/
structure Decorated (g h : Graph) : Prop where
  components : List.Forall₂ (fun e f => e.1 = f.1 ∧ e.2.Decorated f.2) g.components h.components
  names : g.names = h.names
  relations : g.relations = h.relations
  health : g.health = h.health

namespace Decorated

theorem refl (g : Graph) : g.Decorated g where
  components := List.forall₂_same.2 fun e _ => ⟨rfl, .refl e.2⟩
  names := rfl
  relations := rfl
  health := rfl

variable {g h : Graph}

/-! ## What both graphs have in common -/

/-- What no decoration touches can be read off either graph. -/
theorem map_eq {α : Type} (hgh : g.Decorated h) {f : Component → α}
    (hf : ∀ c d : Component, c.Decorated d → f d = f c) :
    h.componentList.map f = g.componentList.map f := by
  rw [componentList, componentList, List.map_map, List.map_map]
  exact Reading.map_eq_map_of_forall₂ (hgh.components.imp fun e d hone => hf e.2 d.2 hone.2)

private theorem keys_eq (hgh : g.Decorated h) :
    Entries.keys h.components = Entries.keys g.components :=
  Reading.map_eq_map_of_forall₂ (hgh.components.imp fun _ _ hone => hone.1.symm)

/-- A decorated graph has the same uids. -/
theorem hasComponent_eq (hgh : g.Decorated h) (uid : String) :
    g.hasComponent uid = h.hasComponent uid := by
  rw [Bool.eq_iff_iff, hasComponent, hasComponent, Entries.hasKey_iff, Entries.hasKey_iff,
    hgh.keys_eq]

/-- A decorated graph has the same uids under a name. -/
theorem uidsOf_eq (hgh : g.Decorated h) (name : String) : g.uidsOf name = h.uidsOf name := by
  rw [uidsOf, uidsOf, hgh.names]

private theorem component?_uid_eq (hgh : g.Decorated h) (uid : String) :
    (g.component? uid).map Component.uid = (h.component? uid).map Component.uid := by
  have hcomponents := hgh.components
  unfold component?
  generalize g.components = es at hcomponents
  generalize h.components = fs at hcomponents
  induction hcomponents with
  | nil => rfl
  | @cons e f _ _ hone _ ih =>
      obtain ⟨hkey, hdecorated⟩ := hone
      by_cases huid : f.1 = uid
      · simp [Entries.get?, hkey, huid, hdecorated.uid]
      · simp [Entries.get?, hkey, huid, ih]

/-- References mean the same in a decorated graph. -/
theorem resolve?_eq (hgh : g.Decorated h) (reference : String) :
    g.resolve? reference = h.resolve? reference := by
  unfold resolve? componentNamed?
  rw [hgh.hasComponent_eq, hgh.uidsOf_eq]
  rcases h.uidsOf reference with _ | ⟨uid, _ | ⟨other, rest⟩⟩
  · rfl
  · have huid := hgh.component?_uid_eq uid
    simp only [Except.map, huid]
  · rfl

private theorem pending_eq (hgh : g.Decorated h) : g.pending = h.pending := by
  have hpending := hgh.map_eq fun _ _ hcd => hcd.pending
  rw [pending, pending, List.flatMap_def, List.flatMap_def, hpending]

/-! ## Operations -/

private theorem withoutPending (hgh : g.Decorated h) :
    g.withoutPending.Decorated h.withoutPending where
  components := by
    refine List.forall₂_map_left_iff.2 (List.forall₂_map_right_iff.2 ?_)
    refine hgh.components.imp fun e f hone => ⟨hone.1, ?_⟩
    exact { hone.2 with pending := rfl }
  names := hgh.names
  relations := hgh.relations
  health := hgh.health

/-- A component can be added before it is decorated if it can be added after. -/
theorem addComponent {k : Graph} (hgh : g.Decorated h) {c d : Component} (hcd : c.Decorated d)
    (hadd : h.addComponent d = (.ok (), k)) :
    ∃ l, g.addComponent c = (.ok (), l) ∧ l.Decorated k := by
  have hnew := (addComponent_eq_ok_iff.1 hadd).1
  rw [← hgh.hasComponent_eq, hcd.uid] at hnew
  have hplain := addComponent_eq_ok_iff.2 ⟨hnew, rfl⟩
  refine ⟨_, hplain, ?_⟩
  rw [eq_append_of_addComponent hplain, eq_append_of_addComponent hadd]
  exact
    { components := List.rel_append hgh.components (.cons ⟨hcd.uid.symm, hcd⟩ .nil)
      names := by rw [hgh.names, hgh.uidsOf_eq, hcd.name, hcd.uid]
      relations := hgh.relations
      health := hgh.health }

theorem setHealth (hgh : g.Decorated h) (state : HealthState) :
    (g.setHealth state).Decorated (h.setHealth state) where
  components := hgh.components
  names := hgh.names
  relations := hgh.relations
  health := by rw [Graph.setHealth, Graph.setHealth, hgh.health]

/-! ## The relation pass -/

/-- A relation is stored in both graphs or in neither. -/
theorem addRelation (hgh : g.Decorated h) (r : Relation) :
    (g.addRelation r).1 = (h.addRelation r).1 ∧
      (g.addRelation r).2.Decorated (h.addRelation r).2 := by
  unfold Graph.addRelation
  rw [hgh.relations]
  split
  · exact ⟨rfl, hgh⟩
  · exact ⟨rfl, { hgh with relations := rfl }⟩

/-- Pending relations lead to the same error or to the same edge. -/
theorem connect (hgh : g.Decorated h) (p : PendingRelation) :
    (g.connect p).1 = (h.connect p).1 ∧ (g.connect p).2.Decorated (h.connect p).2 := by
  have hedge : g.edgeOf p = h.edgeOf p := by
    unfold edgeOf
    rw [hgh.resolve?_eq]
  unfold Graph.connect
  rw [hedge]
  cases h.edgeOf p with
  | error e => exact ⟨rfl, hgh⟩
  | ok r => exact hgh.addRelation r

private theorem connectAll (hgh : g.Decorated h) (ps : List PendingRelation) :
    (Graph.connectAll ps g).1 = (Graph.connectAll ps h).1 ∧
      (Graph.connectAll ps g).2.Decorated (Graph.connectAll ps h).2 := by
  induction ps generalizing g h with
  | nil => exact ⟨rfl, hgh⟩
  | cons p rest ih =>
      have hstep := hgh.connect p
      unfold Graph.connectAll
      rcases hg : g.connect p with ⟨e | r, k⟩
      all_goals
        rcases hh : h.connect p with ⟨f | s, l⟩
        all_goals
          rw [hg, hh] at hstep
          obtain ⟨hresult, hkl⟩ := hstep
          cases hresult
      · exact ⟨rfl, hkl⟩
      · have hrest := ih hkl
        exact ⟨congrArg (Except.map (· + 1)) hrest.1, hrest.2⟩

/-- The relation pass gives the same on both graphs, and adds the same edges. -/
theorem resolveRelations (hgh : g.Decorated h) :
    g.resolveRelations.1 = h.resolveRelations.1 ∧
      g.resolveRelations.2.Decorated h.resolveRelations.2 := by
  unfold Graph.resolveRelations
  rw [hgh.pending_eq]
  exact hgh.withoutPending.connectAll _

end Decorated

end InfraGraph.Graph
