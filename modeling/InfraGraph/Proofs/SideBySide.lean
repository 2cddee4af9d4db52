import Mathlib.Data.List.Forall2

/-!
# Lists side by side

What is looked up or searched for one by one gives a list of results beside the list that was asked
for. Each result belongs to something that was asked for, there is such a list just if everything
that was asked for has a result, and a computation that goes through a list gives it.

## Main results

* `exists_of_forall₂_of_mem` — each result belongs to something.
* `exists_forall₂_iff` — there are results for all if there is one for each.
* `mapM_eq_ok_iff` — a computation item by item gives the results of the items.
-/

namespace InfraGraph

variable {ε α β : Type} {R : α → β → Prop} {xs : List α} {ys : List β}

/-- Each result belongs to something that was asked for. -/
theorem exists_of_forall₂_of_mem (h : List.Forall₂ R xs ys) {y : β} (hy : y ∈ ys) :
    ∃ x ∈ xs, R x y := by
  induction h with
  | nil => cases hy
  | cons hx _ ih =>
      rcases List.mem_cons.1 hy with rfl | hrest
      · exact ⟨_, List.mem_cons_self, hx⟩
      · obtain ⟨x, hmem, hxy⟩ := ih hrest
        exact ⟨x, List.mem_cons_of_mem _ hmem, hxy⟩

/-- There are results for all that is asked for if there is one for each. -/
theorem exists_forall₂_iff : (∃ ys, List.Forall₂ R xs ys) ↔ ∀ x ∈ xs, ∃ y, R x y := by
  induction xs with
  | nil => simp
  | cons x rest ih =>
      rw [List.forall_mem_cons, ← ih]
      constructor
      · rintro ⟨_, hall⟩
        obtain ⟨y, ys, hy, hys, rfl⟩ := List.forall₂_cons_left_iff.1 hall
        exact ⟨⟨y, hy⟩, ys, hys⟩
      · rintro ⟨⟨y, hy⟩, ys, hys⟩
        exact ⟨y :: ys, .cons hy hys⟩

/-- A computation item by item succeeds with the results of the items. -/
theorem mapM_eq_ok_iff {f : α → Except ε β} :
    xs.mapM f = .ok ys ↔ List.Forall₂ (fun x y => f x = .ok y) xs ys := by
  constructor
  · intro h
    induction xs generalizing ys with
    | nil =>
        rw [List.mapM_nil] at h
        cases h
        exact .nil
    | cons x rest ih =>
        rw [List.mapM_cons] at h
        cases hx : f x with
        | error e => rw [hx] at h; cases h
        | ok y =>
            cases hrest : rest.mapM f with
            | error e => rw [hx, hrest] at h; cases h
            | ok zs =>
                rw [hx, hrest] at h
                cases h
                exact .cons hx (ih hrest)
  · intro h
    induction h with
    | nil => rfl
    | cons hx _ ih =>
        rw [List.mapM_cons, hx, ih]
        rfl

end InfraGraph
