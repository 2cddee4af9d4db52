import InfraGraph.Proofs.Graph.RelationPass

/-!
# When a relation is a duplicate

Relations are known by their external ids, which are written from the uids of both ends with an
arrow between them. A relation is therefore refused where the ends of a stored one are written
alike. A uid may hold an arrow itself, so two relations with different ends can be written alike:
the edge from `a --> b` to `c` and the edge from `a` to `b --> c`. Where no arrow begins in a source
this cannot happen, and only a relation between the same components is a duplicate.

## Main results

* `externalId_inj` — external ids determine both ends where no arrow begins in a source.
* `Labelled.run` — every stored relation has the external id of its ends.
* `apply_addRelation_run` — which relations are rejected, and what adding one does.
-/

namespace InfraGraph

/-! ## External ids -/

/-- What stands between the ends in an external id. -/
def arrow : List Char := [' ', '-', '-', '>', ' ']

/-- No arrow begins in a uid, not even one that ends with the space behind it. -/
def ArrowFree (uid : String) : Prop := ¬ arrow <:+: uid.toList ++ [' ']

private theorem toList_externalId (source target : String) :
    (externalId source target).toList = source.toList ++ (arrow ++ target.toList) := by
  simp [externalId, arrow]

/-- Where an arrow stands in front of two texts, but with something before it once, an arrow begins
in what stands before it. -/
theorem arrow_infix_of_append {before xs ys : List Char} (hne : before ≠ [])
    (h : arrow ++ xs = before ++ (arrow ++ ys)) : arrow <:+: before ++ [' '] := by
  have hprefix : before ++ [' '] <+: arrow ++ xs := by
    refine ⟨['-', '-', '>', ' '] ++ ys, ?_⟩
    rw [h, List.append_assoc]
    rfl
  by_cases hlong : arrow.length ≤ (before ++ [' ']).length
  · exact (List.prefix_of_prefix_length_le (List.prefix_append _ _) hprefix hlong).isInfix
  · -- Shorter texts would make one of the inner characters of the arrow a space.
    rcases before with _ | ⟨a, _ | ⟨b, _ | ⟨c, _ | ⟨d, before⟩⟩⟩⟩
    · exact absurd rfl hne
    · simp [arrow] at h
    · simp [arrow] at h
    · simp [arrow] at h
    · simp [arrow] at hlong

private theorem eq_nil_of_arrowFree {source before : List Char} {xs ys : List Char}
    (hfree : ¬ arrow <:+: source ++ before ++ [' ']) (h : arrow ++ xs = before ++ (arrow ++ ys)) :
    before = [] := by
  by_contra hne
  refine hfree ((arrow_infix_of_append hne h).trans ?_)
  rw [List.append_assoc]
  exact (List.suffix_append source _).isInfix

/-- External ids determine both ends where no arrow begins in a source. -/
theorem externalId_inj {source target source' target' : String} (hsource : ArrowFree source)
    (hsource' : ArrowFree source') (h : externalId source target = externalId source' target') :
    source = source' ∧ target = target' := by
  have hlists := congrArg String.toList h
  rw [toList_externalId, toList_externalId] at hlists
  rcases List.append_eq_append_iff.1 hlists with ⟨before, hbefore, hrest⟩ | ⟨before, hbefore, hrest⟩
  · rw [ArrowFree, hbefore] at hsource'
    obtain rfl := eq_nil_of_arrowFree hsource' hrest
    rw [List.append_nil] at hbefore
    exact ⟨String.toList_inj.1 hbefore.symm,
      String.toList_inj.1 (List.append_cancel_left hrest)⟩
  · rw [ArrowFree, hbefore] at hsource
    obtain rfl := eq_nil_of_arrowFree hsource hrest
    rw [List.append_nil] at hbefore
    exact ⟨String.toList_inj.1 hbefore,
      String.toList_inj.1 (List.append_cancel_left hrest).symm⟩

namespace Graph

/-! ## Stored relations -/

/-- Every relation has the external id of its ends. -/
def Labelled (g : Graph) : Prop :=
  ∀ r ∈ g.relationList, r.externalId = InfraGraph.externalId r.source r.target

private theorem externalId_edgeTo (p : PendingRelation) (target : String) :
    (edgeTo p target).externalId =
      InfraGraph.externalId (edgeTo p target).source (edgeTo p target).target := by
  unfold edgeTo
  split <;> rfl

namespace Labelled

variable {g h : Graph}

private theorem addRelation (hg : Labelled g) {source target relationType : String} {s : Relation}
    (hadd : g.addRelation (.between source target relationType) = (.ok s, h)) : Labelled h := by
  intro r hr
  rw [eq_append_of_addRelation hadd] at hr
  simp only [relationList, List.map_append, List.map_singleton, List.mem_append,
    List.mem_singleton] at hr
  rcases hr with hold | rfl
  · exact hg r hold
  · rfl

private theorem resolveRelations (hindex : Indexed g) (hg : Labelled g) :
    Labelled g.resolveRelations.2 := by
  obtain ⟨edges, hrun, hedges⟩ := exists_resolveRelations_eq hindex
  rw [hrun]
  intro r hr
  have hmem : r ∈ g.relationList ∨ r ∈ edges := by
    simpa [relationList, connected] using hr
  rcases hmem with hold | hnew
  · exact hg r hold
  · obtain ⟨p, -, target, -, rfl⟩ := hedges r hnew
    exact externalId_edgeTo p target

private theorem apply (hindex : Indexed g) (hg : Labelled g) (op : Operation) :
    Labelled (op.apply g).2 := by
  cases op with
  | addComponent c =>
      refine addComponent_induction hg fun h hadd => ?_
      rw [eq_append_of_addComponent hadd]
      exact hg
  | addRelation source target relationType =>
      exact addRelation_induction hg fun h hadd => hg.addRelation hadd
  | setHealth state => exact hg
  | addEvent e => exact hg
  | resolveRelations => exact hg.resolveRelations hindex

/-- After every run of operations, every relation has the external id of its ends. -/
theorem run (ops : List Operation) : Labelled (empty.run ops) := by
  have hboth : Indexed (empty.run ops) ∧ Labelled (empty.run ops) :=
    run_induction (P := fun g => Indexed g ∧ Labelled g)
      ⟨Indexed.empty, fun r hr => absurd hr List.not_mem_nil⟩
      (fun g op hg => ⟨hg.1.apply op, hg.2.apply hg.1 op⟩) ops
  exact hboth.2

end Labelled

/-- An external id is taken if the ends of a stored relation are written with it. -/
theorem hasKey_relations_iff {g : Graph} (hindex : Indexed g) (hg : Labelled g) (id : String) :
    Entries.hasKey g.relations id = true ↔
      ∃ r ∈ g.relationList, InfraGraph.externalId r.source r.target = id := by
  rw [Entries.hasKey_iff, hindex.relations.mem_keys_iff]
  constructor
  · rintro ⟨r, hr, hid⟩
    exact ⟨r, hr, by rw [← hg r hr, hid]⟩
  · rintro ⟨r, hr, hid⟩
    exact ⟨r, hr, by rw [hg r hr, hid]⟩

/-! ## Adding a relation -/

/-- After every run of operations, a relation is rejected if the ends of a stored one are written
with the same external id, and then nothing changes; otherwise it is added behind the others. Where
no arrow begins in the sources, a relation is rejected for one between the same components only. -/
theorem apply_addRelation_run (ops : List Operation) (source target relationType : String) :
    let g := empty.run ops
    let id := InfraGraph.externalId source target
    let taken := ∃ r ∈ g.relationList, InfraGraph.externalId r.source r.target = id
    let outcome := (Operation.addRelation source target relationType).apply g
    (taken → outcome = (.error (.duplicateRelation id), g)) ∧
    (¬ taken → outcome = (.ok (), { g with
      relations := g.relations ++ [(id, .between source target relationType)] })) ∧
    (ArrowFree source → (∀ r ∈ g.relationList, ArrowFree r.source) →
      (taken ↔ ∃ r ∈ g.relationList, r.source = source ∧ r.target = target)) := by
  intro g id taken outcome
  have hindex : Indexed g := Indexed.empty.run ops
  have hkey : Entries.hasKey g.relations id = true ↔ taken :=
    hasKey_relations_iff hindex (Labelled.run ops) id
  refine ⟨fun htaken => ?_, fun hfree => ?_, fun hsource hsources => ?_⟩
  · have hreject : g.addRelation (.between source target relationType) =
        (.error (.duplicateRelation id), g) :=
      addRelation_eq_error_iff.2 ⟨hkey.2 htaken, rfl, rfl⟩
    show ((g.addRelation (.between source target relationType)).1.map fun _ => (),
      (g.addRelation (.between source target relationType)).2) = _
    rw [hreject]
    rfl
  · have hnew : Entries.hasKey g.relations id = false := by
      rw [← Bool.not_eq_true, hkey]
      exact hfree
    have hadd : g.addRelation (.between source target relationType) = (.ok _, _) :=
      addRelation_eq_ok_iff.2 ⟨hnew, rfl, rfl⟩
    show ((g.addRelation (.between source target relationType)).1.map fun _ => (),
      (g.addRelation (.between source target relationType)).2) = _
    rw [hadd, eq_append_of_addRelation hadd]
    rfl
  · constructor
    · rintro ⟨r, hr, hid⟩
      exact ⟨r, hr, externalId_inj (hsources r hr) hsource hid⟩
    · rintro ⟨r, hr, rfl, rfl⟩
      exact ⟨r, hr, rfl⟩

/-- The same edge is rejected the second time, whatever its type. -/
theorem apply_addRelation_run_repeated :
    (ArrowFree "a" ∧ ∀ r ∈ (empty.run [.addRelation "a" "b" "uses"]).relationList,
      ArrowFree r.source) ∧
    (Operation.addRelation "a" "b" "calls").apply (empty.run [.addRelation "a" "b" "uses"]) =
      (.error (.duplicateRelation "a --> b"), empty.run [.addRelation "a" "b" "uses"]) := by
  have hfree : ArrowFree "a" := by
    unfold ArrowFree
    decide
  have hfrees : ∀ r ∈ (empty.run [.addRelation "a" "b" "uses"]).relationList,
      ArrowFree r.source := List.forall_mem_singleton.2 hfree
  obtain ⟨hreject, -, hsame⟩ :=
    apply_addRelation_run [.addRelation "a" "b" "uses"] "a" "b" "calls"
  exact ⟨⟨hfree, hfrees⟩,
    hreject ((hsame hfree hfrees).2 ⟨_, List.mem_singleton.2 rfl, rfl, rfl⟩)⟩

/-- An edge is rejected for one between other components, whose ends are written alike. -/
theorem apply_addRelation_nestedArrow :
    let g := empty.run [.addRelation "a --> b" "c" "uses"]
    ((Operation.addRelation "a" "b --> c" "uses").apply g).1 =
        .error (.duplicateRelation "a --> b --> c") ∧
      ¬ ∃ r ∈ g.relationList, r.source = "a" ∧ r.target = "b --> c" := by
  refine ⟨rfl, ?_⟩
  rintro ⟨r, hr, hsource, -⟩
  obtain rfl : r = .between "a --> b" "c" "uses" := List.mem_singleton.1 hr
  exact absurd hsource (by decide)

end Graph

end InfraGraph
