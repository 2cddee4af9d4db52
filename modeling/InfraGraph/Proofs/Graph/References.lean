import InfraGraph.Proofs.Graph.Index
import InfraGraph.Proofs.SideBySide

/-!
# What references mean

A reference is resolved through the index of names, but what it means can be said by the components
alone: `Means` relates it to the one uid it stands for, and where it stands for none there is either
no component of that name or more than one.

## Main results

* `resolve?_eq` — only uids and names of components decide what a reference means.
* `resolve?_cases` — a reference means one uid, or nothing, or too much.
* `forall₂_of_resolveIdentifiers` — identifiers are resolved one by one.
-/

namespace InfraGraph.Graph

/-! ## Single references -/

/-- The uid that a reference means: itself if it is the uid of a component, or
else the uid of the only component of that name. -/
inductive Means (g : Graph) (reference : String) : String → Prop where
  | uid (huid : ∃ c ∈ g.componentList, c.uid = reference) :
      Means g reference reference
  | name (huid : ¬ ∃ c ∈ g.componentList, c.uid = reference) (c : Component)
      (hname : g.named reference = [c]) : Means g reference c.uid

/-- A reference means one uid only. -/
theorem Means.unique {g : Graph} {reference t u : String}
    (ht : Means g reference t) (hu : Means g reference u) : t = u := by
  cases ht with
  | uid huid =>
      cases hu with
      | uid _ => rfl
      | name hno _ _ => exact absurd huid hno
  | name hno c hc =>
      cases hu with
      | uid huid => exact absurd huid hno
      | name _ d hd =>
          rw [hc] at hd
          cases hd
          rfl

/-- What a reference means is the uid of a component. -/
theorem Means.mem {g : Graph} {reference t : String}
    (ht : Means g reference t) : ∃ c ∈ g.componentList, c.uid = t := by
  cases ht with
  | uid huid => exact huid
  | name _ c hc =>
      have hmem : c ∈ g.named reference := by simp [hc]
      exact ⟨c, List.mem_of_mem_filter hmem, rfl⟩

/-- Only the uids and the names of the components decide what a reference
means. -/
theorem resolve?_eq {g : Graph} (hg : Indexed g) (reference : String) :
    g.resolve? reference =
      if g.hasComponent reference then .ok (some reference) else
        match g.uidsOf reference with
        | [] => .ok none
        | [uid] => .ok (some uid)
        | uids => .error (.ambiguousName reference uids.length) := by
  unfold resolve?
  by_cases huid : g.hasComponent reference = true
  · simp [huid]
  · simp only [huid, Bool.false_eq_true, if_false]
    rw [componentNamed?_eq_sole hg, hg.names]
    rcases g.named reference with _ | ⟨c, _ | ⟨d, rest⟩⟩
    · rfl
    · rfl
    · simp [sole, Except.map]

/-- A reference means a uid, is unknown, or is the name of several components. -/
theorem resolve?_cases {g : Graph} (hg : Indexed g) (reference : String) :
    (∃ t, Means g reference t ∧ g.resolve? reference = .ok (some t)) ∨
    (¬ ∃ c ∈ g.componentList, c.uid = reference) ∧
      (g.named reference = [] ∧ g.resolve? reference = .ok none ∨
      2 ≤ (g.named reference).length ∧ g.resolve? reference =
        .error (.ambiguousName reference (g.named reference).length)) := by
  rw [resolve?_eq hg, ← hasComponent_iff hg, hg.names]
  by_cases huid : g.hasComponent reference = true
  · exact Or.inl ⟨reference, .uid ((hasComponent_iff hg _).1 huid), by simp [huid]⟩
  · have hno : ¬ ∃ c ∈ g.componentList, c.uid = reference :=
      fun h => huid ((hasComponent_iff hg _).2 h)
    match hscan : g.named reference with
    | [] => exact Or.inr ⟨huid, Or.inl ⟨rfl, by simp [huid]⟩⟩
    | [c] => exact Or.inl ⟨c.uid, .name hno c hscan, by simp [huid]⟩
    | c :: d :: rest =>
        exact Or.inr ⟨huid, Or.inr ⟨by simp, by simp [huid]⟩⟩

/-! ## Identifiers -/

/-- Every identifier is replaced by what it means, or stays. -/
theorem forall₂_of_resolveIdentifiers {g : Graph} {identifiers resolved : List String}
    (h : g.resolveIdentifiers identifiers = .ok resolved) :
    List.Forall₂ (fun identifier uid => ∃ meaning,
      g.resolve? identifier = .ok meaning ∧ uid = meaning.getD identifier)
      identifiers resolved := by
  refine (mapM_eq_ok_iff.1 h).imp fun identifier uid hone => ?_
  cases hmeaning : g.resolve? identifier with
  | error e => rw [hmeaning] at hone; cases hone
  | ok meaning =>
      rw [hmeaning] at hone
      cases hone
      exact ⟨meaning, rfl, rfl⟩

end InfraGraph.Graph
