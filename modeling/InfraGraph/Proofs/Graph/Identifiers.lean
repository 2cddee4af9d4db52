import InfraGraph.Proofs.Graph.References

/-!
# What the identifiers of an event become

The identifiers of an event are references to components, but unlike the targets of relations they
need not refer to anything here: one that is neither the uid nor the name of a component stays as it
is. Only a name that several components share is refused.

What comes out are uids of components, and texts that refer to none, so that resolving it once more
changes nothing. This rests on the index of names: a uid found through it must be that of a
component, and uids must come before names, since the name of one component may be the uid of
another.

## Main results

* `resolveIdentifiers_eq_ok_iff` — identifiers are resolved one by one.
* `ResolvesTo.settled` — what an identifier is resolved to is resolved to itself.
* `resolveIdentifiers_meaning` — when identifiers are resolved, and to what, after every run.
-/

namespace InfraGraph.Graph

/-- What an identifier is resolved to: the uid that it means, or the identifier itself where it is
neither the uid nor the name of a component. -/
inductive ResolvesTo (g : Graph) (identifier : String) : String → Prop where
  | known {uid : String} (h : Means g identifier uid) : ResolvesTo g identifier uid
  | unknown (huid : ¬ ∃ c ∈ g.componentList, c.uid = identifier)
      (hname : g.named identifier = []) : ResolvesTo g identifier identifier

/-- An identifier is no uid, and several components have it as their name. -/
structure Shared (g : Graph) (identifier : String) : Prop where
  no_uid : ¬ ∃ c ∈ g.componentList, c.uid = identifier
  several : 2 ≤ (g.named identifier).length

section Resolving

variable {g : Graph} {identifier uid : String}

private theorem ResolvesTo.not_shared (h : ResolvesTo g identifier uid) :
    ¬ Shared g identifier := by
  rintro ⟨hno, hseveral⟩
  cases h with
  | unknown _ hname => simp [hname] at hseveral
  | known hmeans =>
      cases hmeans with
      | uid huid => exact hno huid
      | name _ c hc => simp [hc] at hseveral

/-- What comes out is the uid of a component, or it refers to none. -/
theorem ResolvesTo.settled (h : ResolvesTo g identifier uid) : ResolvesTo g uid uid := by
  cases h with
  | known hmeans => exact .known (.uid hmeans.mem)
  | unknown huid hname => exact .unknown huid hname

private theorem exists_resolvesTo_iff (hg : Indexed g) :
    (∃ uid, ResolvesTo g identifier uid) ↔ ¬ Shared g identifier := by
  constructor
  · rintro ⟨uid, h⟩
    exact h.not_shared
  · intro hshared
    rcases resolve?_cases hg identifier with
      ⟨uid, hmeans, _⟩ | ⟨hno, ⟨hname, _⟩ | ⟨hseveral, _⟩⟩
    · exact ⟨uid, .known hmeans⟩
    · exact ⟨identifier, .unknown hno hname⟩
    · exact absurd ⟨hno, hseveral⟩ hshared

private theorem resolve?_of_means (hg : Indexed g) (h : Means g identifier uid) :
    g.resolve? identifier = .ok (some uid) := by
  rcases resolve?_cases hg identifier with ⟨t, ht, hok⟩ | ⟨hno, hname⟩
  · rw [hok, ht.unique h]
  · cases h with
    | uid huid => exact absurd huid hno
    | name _ c hc => simp [hc] at hname

private theorem resolve?_of_unknown (hg : Indexed g)
    (huid : ¬ ∃ c ∈ g.componentList, c.uid = identifier) (hname : g.named identifier = []) :
    g.resolve? identifier = .ok none := by
  rw [← hasComponent_iff hg] at huid
  rw [resolve?_eq hg, if_neg huid, hg.names, hname]
  rfl

/-- An identifier is resolved to what its reference means, and otherwise stays. -/
theorem resolvesTo_iff (hg : Indexed g) :
    ResolvesTo g identifier uid ↔
      ∃ meaning, g.resolve? identifier = .ok meaning ∧ uid = meaning.getD identifier := by
  constructor
  · intro h
    cases h with
    | known hmeans => exact ⟨some uid, resolve?_of_means hg hmeans, rfl⟩
    | unknown huid hname => exact ⟨none, resolve?_of_unknown hg huid hname, rfl⟩
  · rintro ⟨meaning, hmeaning, rfl⟩
    rcases resolve?_cases hg identifier with
      ⟨t, ht, hok⟩ | ⟨hno, ⟨hname, hnone⟩ | ⟨_, herror⟩⟩
    · cases hok.symm.trans hmeaning
      exact .known ht
    · cases hnone.symm.trans hmeaning
      exact .unknown hno hname
    · cases herror.symm.trans hmeaning

/-- Identifiers are resolved just if each of them is. -/
theorem resolveIdentifiers_eq_ok_iff (hg : Indexed g) (identifiers resolved : List String) :
    g.resolveIdentifiers identifiers = .ok resolved ↔
      List.Forall₂ (ResolvesTo g) identifiers resolved := by
  constructor
  · intro h
    exact (forall₂_of_resolveIdentifiers h).imp fun _ _ => (resolvesTo_iff hg).2
  · intro h
    refine mapM_eq_ok_iff.2 (h.imp fun identifier uid hone => ?_)
    obtain ⟨meaning, hmeaning, rfl⟩ := (resolvesTo_iff hg).1 hone
    rw [hmeaning]
    rfl

end Resolving

/-- After every run of operations, identifiers are resolved if and only if none of them is only the
name of several components. Each of them then becomes the uid that it means or stays, and resolving
what came out changes nothing. -/
theorem resolveIdentifiers_meaning (ops : List Operation) (identifiers : List String) :
    let g := empty.run ops
    ((∃ resolved, g.resolveIdentifiers identifiers = .ok resolved) ↔
      ∀ identifier ∈ identifiers, ¬ Shared g identifier) ∧
    ∀ resolved, g.resolveIdentifiers identifiers = .ok resolved →
      resolved.length = identifiers.length ∧
      List.Forall₂ (ResolvesTo g) identifiers resolved ∧
      g.resolveIdentifiers resolved = .ok resolved := by
  intro g
  have hg : Indexed g := Indexed.empty.run ops
  simp only [resolveIdentifiers_eq_ok_iff hg]
  constructor
  · simp only [exists_forall₂_iff, exists_resolvesTo_iff hg]
  · intro resolved hall
    refine ⟨hall.length_eq.symm, hall, List.forall₂_same.2 fun uid huid => ?_⟩
    obtain ⟨identifier, _, h⟩ := exists_of_forall₂_of_mem hall huid
    exact h.settled

end InfraGraph.Graph
