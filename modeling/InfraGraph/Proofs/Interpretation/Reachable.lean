import InfraGraph.Proofs.Interpretation.Integrity

/-!
# Graphs that texts and operations reach

A text changes a graph through the operations of the store and in no other way, also where it fails.
What holds after every run of operations therefore holds after all texts.

## Main results

* `exists_run_of_advances` — a step of a pass is a run of operations.
* `exists_run_of_interpretUnits` — so are texts, one after the other.
-/

namespace InfraGraph.Interpretation

open InfraGraph.Graph (Operation)

/-- Runs of operations may follow each other. -/
theorem run_append (g : Graph) (before after : List Operation) :
    g.run (before ++ after) = (g.run before).run after := by
  induction before generalizing g with
  | nil => rfl
  | cons op rest ih => exact ih _

/-- Every step of a pass is a run of operations. -/
theorem exists_run_of_advances {g h : Graph} (hstep : Advances g h) :
    ∃ ops, h = g.run ops := by
  cases hstep with
  | component _ hregisters =>
      obtain ⟨c, state, k, _, hadd, rfl⟩ := hregisters.exists_addComponent
      refine ⟨[.addComponent c, .setHealth state], ?_⟩
      simp [Graph.run, Operation.apply, hadd]
  | relations => exact ⟨[.resolveRelations], rfl⟩
  | event _ _ _ e _ => exact ⟨[.addEvent e], rfl⟩

private theorem exists_run_of_reaches {g h : Graph}
    (hsteps : Relation.ReflTransGen Advances g h) : ∃ ops, h = g.run ops := by
  induction hsteps with
  | refl => exact ⟨[], rfl⟩
  | tail _ hstep ih =>
      obtain ⟨before, rfl⟩ := ih
      obtain ⟨after, rfl⟩ := exists_run_of_advances hstep
      exact ⟨before ++ after, (run_append _ _ _).symm⟩

/-- What texts leave behind, a run of operations leaves behind as well. -/
theorem exists_run_of_interpretUnits (g : Graph) (units : List SourceUnit) :
    ∃ ops, interpretUnits g units = g.run ops := by
  induction units generalizing g with
  | nil => exact ⟨[], rfl⟩
  | cons unit rest ih =>
      obtain ⟨first, hfirst⟩ :=
        exists_run_of_reaches (reaches_interpretText unit.clock unit.text unit.name g)
      obtain ⟨more, hmore⟩ := ih (interpretText unit.clock unit.text unit.name g).2
      refine ⟨first ++ more, ?_⟩
      rw [run_append, ← hfirst]
      exact hmore

end InfraGraph.Interpretation
