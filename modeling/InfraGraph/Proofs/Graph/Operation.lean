import InfraGraph.Graph.References
import InfraGraph.Proofs.Entries.Keyed

/-!
# Runs of store operations

What can be done to a graph from the outside is one of five operations. Two of them add something
that must be new and are rejected if it is not, and the relation pass may stop halfway; a run goes
on in any case, with the graph that is left.

## Main results

* `addComponent_eq_error_iff`, `addRelation_eq_error_iff` — when something is rejected; the graph
  is then the same as before.
* `run_induction` — what every operation keeps holds after every run.
* `connectAll_induction` — what every new relation keeps holds after the relation pass.
-/

namespace InfraGraph.Graph

/-- An operation of the store. -/
inductive Operation where
  | addComponent (c : Component)
  | addRelation (source target relationType : String)
  | setHealth (state : HealthState)
  | addEvent (e : Event)
  | resolveRelations

/-- Whether an operation succeeds, and the graph after it. -/
def Operation.apply (g : Graph) :
    Operation → Except SemanticError Unit × Graph
  | addComponent c => g.addComponent c
  | addRelation source target relationType =>
    let (result, h) := g.addRelation (.between source target relationType)
    (result.map fun _ => (), h)
  | setHealth state => (.ok (), g.setHealth state)
  | addEvent e => (.ok (), g.addEvent e)
  | resolveRelations =>
    let (result, h) := g.resolveRelations
    (result.map fun _ => (), h)

/-- The graph after operations, whether they succeed or not. -/
def run (g : Graph) : List Operation → Graph
  | [] => g
  | op :: rest => run (op.apply g).2 rest

/-! ## What must be new -/

section Adding

variable {g h : Graph} {c : Component} {r s : Relation} {e : SemanticError}

/-- A component is added if its uid is new, and then under its uid and its name. -/
theorem addComponent_eq_ok_iff :
    g.addComponent c = (.ok (), h) ↔ g.hasComponent c.uid = false ∧
      h = { g with
        components := Entries.insert g.components c.uid c
        names := Entries.insert g.names c.name (g.uidsOf c.name ++ [c.uid]) } := by
  unfold addComponent
  by_cases hc : g.hasComponent c.uid = true
  · simp [hc]
  · simp [hc, eq_comm]

/-- A component whose uid is there already is rejected, and nothing changes. -/
theorem addComponent_eq_error_iff :
    g.addComponent c = (.error e, h) ↔
      g.hasComponent c.uid = true ∧ e = .duplicateComponent c.uid ∧ h = g := by
  unfold addComponent
  by_cases hc : g.hasComponent c.uid = true
  · simp [hc, eq_comm]
  · simp [hc]

/-- A component goes behind the others, and only the index changes besides. -/
theorem eq_append_of_addComponent (hadd : g.addComponent c = (.ok (), h)) :
    h = { g with
      components := g.components ++ [(c.uid, c)]
      names := Entries.insert g.names c.name (g.uidsOf c.name ++ [c.uid]) } := by
  obtain ⟨hnew, rfl⟩ := addComponent_eq_ok_iff.1 hadd
  rw [Entries.insert_of_notMem ((Entries.hasKey_eq_false_iff _ _).1 hnew)]

/-- A relation is added if its external id is new, and is then stored under it. -/
theorem addRelation_eq_ok_iff :
    g.addRelation r = (.ok s, h) ↔
      Entries.hasKey g.relations r.externalId = false ∧ s = r ∧
      h = { g with relations := Entries.insert g.relations r.externalId r } := by
  unfold addRelation
  by_cases hr : Entries.hasKey g.relations r.externalId = true
  · simp [hr]
  · simp [hr, eq_comm]

/-- A relation whose external id is there already is rejected, and nothing changes. -/
theorem addRelation_eq_error_iff :
    g.addRelation r = (.error e, h) ↔
      Entries.hasKey g.relations r.externalId = true ∧ e = .duplicateRelation r.externalId ∧
        h = g := by
  unfold addRelation
  by_cases hr : Entries.hasKey g.relations r.externalId = true
  · simp [hr, eq_comm]
  · simp [hr]

/-- A relation goes behind the others, and nothing else changes. -/
theorem eq_append_of_addRelation (hadd : g.addRelation r = (.ok s, h)) :
    h = { g with relations := g.relations ++ [(r.externalId, r)] } := by
  obtain ⟨hnew, -, rfl⟩ := addRelation_eq_ok_iff.1 hadd
  rw [Entries.insert_of_notMem ((Entries.hasKey_eq_false_iff _ _).1 hnew)]

/-- A rejected operation that adds a relation leaves the graph as it was. -/
theorem eq_of_apply_addRelation_eq_error {source target relationType : String}
    (hrejected : (Operation.addRelation source target relationType).apply g = (.error e, h)) :
    h = g := by
  rcases hadd : g.addRelation (.between source target relationType) with ⟨cause | s, k⟩
  · rw [Operation.apply, hadd] at hrejected
    cases hrejected
    exact (addRelation_eq_error_iff.1 hadd).2.2
  · rw [Operation.apply, hadd] at hrejected
    cases hrejected

/-- Connecting adds one relation, of whatever ends. -/
theorem addRelation_of_connect {p : PendingRelation} (hconnect : g.connect p = (.ok r, h)) :
    g.addRelation r = (.ok r, h) := by
  unfold connect at hconnect
  cases hedge : g.edgeOf p with
  | error cause =>
      rw [hedge] at hconnect
      cases hconnect
  | ok s =>
      rw [hedge] at hconnect
      obtain ⟨hnew, rfl, rfl⟩ := addRelation_eq_ok_iff.1 hconnect
      exact addRelation_eq_ok_iff.2 ⟨hnew, rfl, rfl⟩

/-- What cannot be connected leaves the graph as it was. -/
theorem eq_of_connect_eq_error {p : PendingRelation} (hconnect : g.connect p = (.error e, h)) :
    h = g := by
  unfold connect at hconnect
  cases hedge : g.edgeOf p with
  | error cause =>
      rw [hedge] at hconnect
      cases hconnect
      rfl
  | ok s =>
      rw [hedge] at hconnect
      exact (addRelation_eq_error_iff.1 hconnect).2.2

end Adding

/-! ## Induction -/

section Induction

variable {P : Graph → Prop} {g : Graph} (h : P g)

include h

/-- What every operation preserves holds after every run. -/
theorem run_induction (hstep : ∀ g op, P g → P (Operation.apply g op).2)
    (ops : List Operation) : P (run g ops) := by
  induction ops generalizing g with
  | nil => exact h
  | cons op rest ih => exact ih (hstep g op h)

/-- What a new component keeps, every attempt to add one keeps. -/
theorem addComponent_induction {c : Component}
    (hok : ∀ k, g.addComponent c = (.ok (), k) → P k) : P (g.addComponent c).2 := by
  rcases hadd : g.addComponent c with ⟨e | ⟨⟩, k⟩
  · obtain ⟨-, -, rfl⟩ := addComponent_eq_error_iff.1 hadd
    exact h
  · exact hok k hadd

/-- What a new relation keeps, every attempt to add one keeps. -/
theorem addRelation_induction {r : Relation}
    (hok : ∀ k, g.addRelation r = (.ok r, k) → P k) : P (g.addRelation r).2 := by
  rcases hadd : g.addRelation r with ⟨e | s, k⟩
  · obtain ⟨-, -, rfl⟩ := addRelation_eq_error_iff.1 hadd
    exact h
  · obtain ⟨-, rfl, -⟩ := addRelation_eq_ok_iff.1 hadd
    exact hok k hadd

/-- What every new relation keeps, all pending relations keep, up to the first that stops them. -/
theorem connectAll_induction
    (hstep : ∀ g r h, P g → g.addRelation r = (.ok r, h) → P h)
    (ps : List PendingRelation) : P (connectAll ps g).2 := by
  induction ps generalizing g with
  | nil => exact h
  | cons p rest ih =>
      unfold connectAll
      rcases hconnect : g.connect p with ⟨e | r, k⟩
      · obtain rfl := eq_of_connect_eq_error hconnect
        exact h
      · exact ih (hstep g r k h (addRelation_of_connect hconnect))

end Induction

end InfraGraph.Graph
