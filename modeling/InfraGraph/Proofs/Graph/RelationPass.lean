import InfraGraph.Proofs.Graph.References

/-!
# What the relation pass does

The relation pass takes everything that the components wait for and connects it one by one. What a
single pending relation comes to can be read off the components alone: `Asks` says which edge it
asks for. That does not change while edges are added, so the whole pass is settled before it starts:
it adds the edges in order up to the first pending relation that `Stops` it.

## Main results

* `connect_cases` — what one pending relation does.
* `connectAll_cases` — what all of them do, in order.
* `resolveRelations_meaning` — the relation pass, on success and on failure.
-/

namespace InfraGraph.Graph

/-! ## Edges -/

/-- The edge that a pending relation asks for once its target is known. -/
def edgeTo (p : PendingRelation) (target : String) : Relation :=
  if p.reverse then .between target p.declaredBy p.relationType
  else .between p.declaredBy target p.relationType

/-- The edge that a pending relation asks for, if its target means anything. -/
def Asks (g : Graph) (p : PendingRelation) (r : Relation) : Prop :=
  ∃ target, Means g p.target target ∧ r = edgeTo p target

/-- A pending relation asks for one edge only. -/
theorem Asks.unique {g : Graph} {p : PendingRelation} {r s : Relation}
    (hr : Asks g p r) (hs : Asks g p s) : r = s := by
  obtain ⟨t, ht, rfl⟩ := hr
  obtain ⟨u, hu, rfl⟩ := hs
  rw [ht.unique hu]

/-- The edges of pending relations begin with the edges of the first of them. -/
theorem exists_append_of_asks {g : Graph} {before after : List PendingRelation}
    {p : PendingRelation} {edges all : List Relation}
    (hbefore : List.Forall₂ (Asks g) before edges)
    (hall : List.Forall₂ (Asks g) (before ++ p :: after) all) :
    ∃ r more, all = edges ++ r :: more ∧ Asks g p r := by
  induction hbefore generalizing all with
  | nil =>
      obtain ⟨r, more, hr, _, rfl⟩ := List.forall₂_cons_left_iff.1 hall
      exact ⟨r, more, rfl, hr⟩
  | cons hq _ ih =>
      obtain ⟨s, rest, hs, hrest, rfl⟩ := List.forall₂_cons_left_iff.1 hall
      obtain ⟨r, more, rfl, hr⟩ := ih hrest
      exact ⟨r, more, by rw [hs.unique hq]; rfl, hr⟩

/-- Edges that can be added: their external ids are new and differ. -/
structure Addable (g : Graph) (edges : List Relation) : Prop where
  new : ∀ r ∈ edges, r.externalId ∉ Entries.keys g.relations
  distinct : (edges.map Relation.externalId).Nodup

/-- Why a pending relation stops the pass once edges have been added. -/
inductive Stops (g : Graph) (edges : List Relation) (p : PendingRelation) :
    SemanticError → Prop where
  | unresolved (huid : ¬ ∃ c ∈ g.componentList, c.uid = p.target)
      (hname : g.named p.target = []) :
      Stops g edges p (.unresolvedRelation p.target p.declaredBy)
  | ambiguous (huid : ¬ ∃ c ∈ g.componentList, c.uid = p.target)
      (hname : 2 ≤ (g.named p.target).length) :
      Stops g edges p (.ambiguousName p.target (g.named p.target).length)
  | duplicate (r : Relation) (hasks : Asks g p r)
      (hid : r.externalId ∈ Entries.keys g.relations ∨
        r.externalId ∈ edges.map Relation.externalId) :
      Stops g edges p (.duplicateRelation r.externalId)

/-- The graph whose components wait for nothing, with edges added. -/
def connected (g : Graph) (edges : List Relation) : Graph :=
  { g.withoutPending with
    relations := g.relations ++ edges.map fun r => (r.externalId, r) }

/-- What stops the pass is an edge that cannot be added, or none at all. -/
theorem Stops.not_new {g : Graph} {edges : List Relation} {p : PendingRelation}
    {e : SemanticError} (hstops : Stops g edges p e) {r : Relation}
    (hr : Asks g p r) : r.externalId ∈ Entries.keys g.relations ∨
      r.externalId ∈ edges.map Relation.externalId := by
  obtain ⟨t, ht, _⟩ := id hr
  cases hstops with
  | unresolved huid hname =>
      cases ht with
      | uid h => exact absurd h huid
      | name _ c hc => simp [hname] at hc
  | ambiguous huid hname =>
      cases ht with
      | uid h => exact absurd h huid
      | name _ c hc => simp [hc] at hname
  | duplicate s hs hid =>
      rw [hr.unique hs]
      exact hid

namespace Addable

variable {g : Graph} {edges : List Relation}

theorem nil (g : Graph) : Addable g [] := ⟨by simp, by simp⟩

/-- One more edge can be added if its external id is new among all. -/
theorem concat (h : Addable g edges) {r : Relation}
    (hkeys : r.externalId ∉ Entries.keys g.relations)
    (hedges : r.externalId ∉ edges.map Relation.externalId) :
    Addable g (edges ++ [r]) where
  new s hs := by
    rcases List.mem_append.1 hs with hmem | hmem
    · exact h.new s hmem
    · rw [List.mem_singleton.1 hmem]
      exact hkeys
  distinct := by
    rw [List.map_append, List.map_singleton, List.nodup_append]
    refine ⟨h.distinct, by simp, ?_⟩
    intro a ha b hb hab
    rw [List.mem_singleton] at hb
    exact hedges (hb ▸ hab ▸ ha)

/-- An edge with others before it is new beside them. -/
theorem notMem_of_append {before after : List Relation} {r : Relation}
    (h : Addable g (before ++ r :: after)) :
    r.externalId ∉ Entries.keys g.relations ∧
      r.externalId ∉ before.map Relation.externalId := by
  refine ⟨h.new r (by simp), fun hmem => ?_⟩
  have hdistinct := h.distinct
  rw [List.map_append, List.nodup_append] at hdistinct
  exact hdistinct.2.2 _ hmem r.externalId (by simp) rfl

end Addable

/-! ## The pass -/

section Pass

variable {g : Graph} {edges : List Relation}

@[simp] theorem connected_nil (g : Graph) : g.connected [] = g.withoutPending := by
  simp [connected, withoutPending]

/-- Edges add no components. -/
theorem hasComponent_connected (g : Graph) (edges : List Relation) (uid : String) :
    (g.connected edges).hasComponent uid = g.hasComponent uid := by
  rw [Bool.eq_iff_iff, hasComponent, hasComponent, Entries.hasKey_iff,
    Entries.hasKey_iff]
  simp [connected, withoutPending, Entries.keys, Function.comp_def]

private theorem Indexed.connected (hg : Indexed g) (h : Addable g edges) :
    Indexed (g.connected edges) := by
  refine { hg.withoutPending with relations := ⟨?_, ?_⟩ }
  · intro e he
    rcases List.mem_append.1 he with hold | hnew
    · exact hg.relations.key_eq e hold
    · obtain ⟨r, _, rfl⟩ := List.mem_map.1 hnew
      rfl
  · simp only [Graph.connected, Entries.keys, List.map_append, List.map_map]
    refine List.nodup_append.2 ⟨hg.relations.nodup, h.distinct, ?_⟩
    rintro a ha b hb rfl
    obtain ⟨r, hr, hid⟩ := List.mem_map.1 hb
    have hnew := h.new r hr
    exact hnew (by rw [show r.externalId = a from hid]; exact ha)

/-- Adding edges does not change what references mean. -/
theorem resolve?_connected (hg : Indexed g) (h : Addable g edges)
    (reference : String) :
    (g.connected edges).resolve? reference = g.resolve? reference := by
  rw [resolve?_eq (hg.connected h), resolve?_eq hg, hasComponent_connected]
  rfl

private theorem hasKey_connected_iff (id : String) :
    Entries.hasKey (g.connected edges).relations id = true ↔
      id ∈ Entries.keys g.relations ∨ id ∈ edges.map Relation.externalId := by
  rw [Entries.hasKey_iff]
  simp [connected, Entries.keys, Function.comp_def]

theorem edgeOf_eq_of_resolve? {k : Graph} {p : PendingRelation} {t : String}
    (h : k.resolve? p.target = .ok (some t)) :
    k.edgeOf p = .ok (edgeTo p t) := by
  simp only [edgeOf, h, edgeTo]
  rfl

/-- One pending relation adds the edge it asks for, or stops the pass and adds nothing. -/
theorem connect_cases (hg : Indexed g) (h : Addable g edges)
    (p : PendingRelation) :
    (∃ r, Asks g p r ∧ Addable g (edges ++ [r]) ∧
      (g.connected edges).connect p = (.ok r, g.connected (edges ++ [r]))) ∨
    ∃ e, Stops g edges p e ∧ (g.connected edges).connect p = (.error e, g.connected edges) := by
  have hresolve := resolve?_connected hg h p.target
  unfold connect
  rcases resolve?_cases hg p.target with
    ⟨t, ht, hok⟩ | ⟨huid, ⟨hname, hnone⟩ | ⟨hname, herror⟩⟩
  · rw [edgeOf_eq_of_resolve? (hresolve.trans hok)]
    dsimp only
    have hasks : Asks g p (edgeTo p t) := ⟨t, ht, rfl⟩
    by_cases hkey : Entries.hasKey (g.connected edges).relations
        (edgeTo p t).externalId = true
    · exact Or.inr ⟨_, .duplicate _ hasks (hasKey_connected_iff _ |>.1 hkey),
        addRelation_eq_error_iff.2 ⟨hkey, rfl, rfl⟩⟩
    · have hnew := hkey
      rw [hasKey_connected_iff, not_or] at hnew
      refine Or.inl ⟨_, hasks, h.concat hnew.1 hnew.2, ?_⟩
      rw [Bool.not_eq_true] at hkey
      refine addRelation_eq_ok_iff.2 ⟨hkey, rfl, ?_⟩
      rw [Entries.insert_of_notMem ((Entries.hasKey_eq_false_iff _ _).1 hkey)]
      simp [connected]
  · refine Or.inr ⟨_, .unresolved huid hname, ?_⟩
    simp only [edgeOf, hresolve.trans hnone]
    rfl
  · refine Or.inr ⟨_, .ambiguous huid hname, ?_⟩
    simp only [edgeOf, hresolve.trans herror]
    rfl

/-- Pending relations add the edges they ask for in order, up to the first that
stops the pass. -/
theorem connectAll_cases (hg : Indexed g) (ps : List PendingRelation)
    (h : Addable g edges) :
    (∃ more, List.Forall₂ (Asks g) ps more ∧ Addable g (edges ++ more) ∧
      connectAll ps (g.connected edges) =
        (.ok ps.length, g.connected (edges ++ more))) ∨
    ∃ before p after more e, ps = before ++ p :: after ∧
      List.Forall₂ (Asks g) before more ∧ Addable g (edges ++ more) ∧
      Stops g (edges ++ more) p e ∧
      connectAll ps (g.connected edges) =
        (.error e, g.connected (edges ++ more)) := by
  -- Each step moves one edge into `edges`; what is asked for is still judged by `g`.
  induction ps generalizing edges with
  | nil => exact Or.inl ⟨[], .nil, by simpa using h, by simp [connectAll]⟩
  | cons p rest ih =>
      rcases connect_cases hg h p with ⟨r, hr, hadd, hok⟩ | ⟨e, he, herror⟩
      · rcases ih hadd with
          ⟨more, hmore, haddmore, hall⟩ |
          ⟨before, q, after, more, e, rfl, hbefore, haddmore, he, hall⟩
        · rw [List.append_assoc] at haddmore hall
          refine Or.inl ⟨r :: more, .cons hr hmore, haddmore, ?_⟩
          simp only [connectAll, hok, hall, List.length_cons]
          rfl
        · rw [List.append_assoc] at haddmore he hall
          refine Or.inr ⟨p :: before, q, after, r :: more, e, rfl,
            .cons hr hbefore, haddmore, he, ?_⟩
          simp only [connectAll, hok, hall]
          rfl
      · refine Or.inr ⟨[], p, rest, [], e, rfl, .nil, by simpa using h,
          by simpa using he, ?_⟩
        simp [connectAll, herror]

/-- The pass adds all edges that are asked for, or those before the first relation that stops it. -/
theorem resolveRelations_cases (hg : Indexed g) :
    (∃ edges, List.Forall₂ (Asks g) g.pending edges ∧ Addable g edges ∧
      g.resolveRelations = (.ok g.pending.length, g.connected edges)) ∨
    ∃ before p after edges e, g.pending = before ++ p :: after ∧
      List.Forall₂ (Asks g) before edges ∧ Addable g edges ∧
      Stops g edges p e ∧ g.resolveRelations = (.error e, g.connected edges) := by
  have hcases := connectAll_cases hg g.pending (Addable.nil g)
  simp only [connected_nil, List.nil_append] at hcases
  exact hcases

/-- Whether the pass succeeds or stops, it adds edges that were asked for. -/
theorem exists_resolveRelations_eq (hg : Indexed g) :
    ∃ edges, g.resolveRelations.2 = g.connected edges ∧
      ∀ r ∈ edges, ∃ p ∈ g.pending, Asks g p r := by
  rcases resolveRelations_cases hg with ⟨edges, hedges, _, hrun⟩ |
    ⟨before, p, after, edges, e, hpending, hbefore, _, _, hrun⟩
  · exact ⟨edges, congrArg Prod.snd hrun, fun _ hr => exists_of_forall₂_of_mem hedges hr⟩
  · refine ⟨edges, congrArg Prod.snd hrun, fun r hr => ?_⟩
    obtain ⟨q, hq, hasks⟩ := exists_of_forall₂_of_mem hbefore hr
    exact ⟨q, by rw [hpending]; exact List.mem_append_left _ hq, hasks⟩

end Pass

/-- The relation pass after a run of operations, on success and on failure: it
succeeds if every pending relation asks for an edge and all these edges can be
added; then it adds them all. Otherwise it adds the edges of the pending
relations before the first that stops it. -/
theorem resolveRelations_meaning (ops : List Operation) :
    let g := empty.run ops
    ((∃ n, g.resolveRelations.1 = .ok n) ↔
      ∃ edges, List.Forall₂ (Asks g) g.pending edges ∧ Addable g edges) ∧
    (∀ n h, g.resolveRelations = (.ok n, h) → n = g.pending.length ∧
      ∃ edges, List.Forall₂ (Asks g) g.pending edges ∧ h = g.connected edges) ∧
    (∀ e h, g.resolveRelations = (.error e, h) →
      ∃ before p after edges, g.pending = before ++ p :: after ∧
        List.Forall₂ (Asks g) before edges ∧ Addable g edges ∧
        Stops g edges p e ∧ h = g.connected edges) := by
  intro g
  have hg : Indexed g := Indexed.empty.run ops
  rcases resolveRelations_cases hg with ⟨edges, hedges, hadd, hrun⟩ |
    ⟨before, p, after, edges, e, hpending, hbefore, hadd, hstops, hrun⟩
  · refine ⟨⟨fun _ => ⟨edges, hedges, hadd⟩, fun _ => ⟨_, by rw [hrun]⟩⟩, ?_, ?_⟩
    · intro n h hnh
      rw [hrun] at hnh
      cases hnh
      exact ⟨rfl, edges, hedges, rfl⟩
    · intro e h heh
      rw [hrun] at heh
      cases heh
  · refine ⟨⟨?_, ?_⟩, ?_, ?_⟩
    · rintro ⟨n, hn⟩
      rw [hrun] at hn
      cases hn
    · -- If all edges could be added, so could the one that stopped the pass.
      rintro ⟨all, hall, haddall⟩
      rw [hpending] at hall
      obtain ⟨r, more, rfl, hr⟩ := exists_append_of_asks hbefore hall
      rcases hstops.not_new hr with hid | hid
      · exact absurd hid haddall.notMem_of_append.1
      · exact absurd hid haddall.notMem_of_append.2
    · intro n h hnh
      rw [hrun] at hnh
      cases hnh
    · intro e' h heh
      rw [hrun] at heh
      cases heh
      exact ⟨before, p, after, edges, hpending, hbefore, hadd, hstops, rfl⟩

end InfraGraph.Graph
