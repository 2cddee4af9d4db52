import InfraGraph.Proofs.Graph.RelationPass
import InfraGraph.Proofs.Graph.Timestamps
import Mathlib.Data.List.Perm.Basic

/-!
# Graphs that hold the same in another order

Two graphs are rearranged if they hold the same components, relations and health checks, in whatever
order, and the same events in the same order but for their times. A reference means the same in
both, because it is resolved by what the components are and not by where they stand; so the relation
pass succeeds on both or on neither.

## Main results

* `Rearranged.resolve?_eq` — references are resolved alike.
* `resolveRelations_eq_ok_iff` — what the relation pass does when it succeeds.
* `Rearranged.resolveRelations` — it succeeds on both graphs, and leaves them rearranged.
-/

namespace InfraGraph.Graph

/-- Two graphs hold the same, but for the order in which components, relations
and health states were added, for the states themselves and for the times of the events. -/
structure Rearranged (g h : Graph) : Prop where
  components : g.componentList.Perm h.componentList
  relations : g.relationList.Perm h.relationList
  health : ∀ checkId, checkId ∈ Entries.keys g.health ↔ checkId ∈ Entries.keys h.health
  events : g.events.map Event.untimed = h.events.map Event.untimed

/-! ## The relation pass when it succeeds -/

/-- The relation pass succeeds exactly where every pending relation asks for an edge
and all these edges can be added. -/
theorem resolveRelations_eq_ok_iff {g : Graph} (hg : Indexed g) (k : Graph) :
    (∃ n, g.resolveRelations = (.ok n, k)) ↔
      ∃ edges, List.Forall₂ (Asks g) g.pending edges ∧ Addable g edges ∧
        k = g.connected edges := by
  rcases resolveRelations_cases hg with ⟨edges, hedges, hadd, hrun⟩ |
    ⟨before, p, after, edges, e, hpending, hbefore, _, hstops, hrun⟩
  · constructor
    · rintro ⟨n, hn⟩
      rw [hrun] at hn
      exact ⟨edges, hedges, hadd, (Prod.mk.inj hn).2.symm⟩
    · rintro ⟨all, hall, _, rfl⟩
      have hunique : Relator.RightUnique (Asks g) := fun _ _ _ hr hs => hr.unique hs
      have hsame : all = edges := hunique.forall₂ hall hedges
      exact ⟨_, by rw [hrun, hsame]⟩
  · constructor
    · rintro ⟨n, hn⟩
      rw [hrun] at hn
      cases hn
    · -- The edge of the pending relation that stopped the pass is not new.
      rintro ⟨all, hall, haddall, _⟩
      rw [hpending] at hall
      obtain ⟨r, more, rfl, hr⟩ := exists_append_of_asks hbefore hall
      have hnew := haddall.notMem_of_append
      rcases hstops.not_new hr with hid | hid
      · exact absurd hid hnew.1
      · exact absurd hid hnew.2

namespace Rearranged

variable {g h : Graph}

/-! ## References -/

/-- Rearranged graphs have the same uids. -/
theorem exists_uid_iff (hgh : Rearranged g h) (uid : String) :
    (∃ c ∈ g.componentList, c.uid = uid) ↔ ∃ c ∈ h.componentList, c.uid = uid := by
  simp only [hgh.components.mem_iff]

/-- Rearranged graphs have the same components under every name. -/
theorem named (hgh : Rearranged g h) (name : String) :
    (g.named name).Perm (h.named name) :=
  hgh.components.filter _

private theorem hasComponent_eq (hgh : Rearranged g h) (hg : Indexed g) (hh : Indexed h)
    (uid : String) : g.hasComponent uid = h.hasComponent uid := by
  rw [Bool.eq_iff_iff, hasComponent_iff hg, hasComponent_iff hh]
  exact hgh.exists_uid_iff uid

/-- References mean the same in rearranged graphs. -/
theorem resolve?_eq (hgh : Rearranged g h) (hg : Indexed g) (hh : Indexed h)
    (reference : String) : g.resolve? reference = h.resolve? reference := by
  rw [Graph.resolve?_eq hg, Graph.resolve?_eq hh, hgh.hasComponent_eq hg hh, hg.names, hh.names]
  have hperm := hgh.named reference
  have hlength := hperm.length_eq
  rcases hgnamed : g.named reference with _ | ⟨c, _ | ⟨d, more⟩⟩
  · rw [hgnamed] at hperm
    rw [hperm.nil_eq]
  · rw [hgnamed] at hperm
    rw [hperm.singleton_eq]
  · rcases hhnamed : h.named reference with _ | ⟨e, _ | ⟨f, rest⟩⟩
    · rw [hgnamed, hhnamed] at hlength
      simp at hlength
    · rw [hgnamed, hhnamed] at hlength
      simp at hlength
    · rw [hgnamed, hhnamed] at hlength
      simp only [List.length_cons] at hlength
      simp [hlength]

/-- Identifiers mean the same in rearranged graphs. -/
theorem resolveIdentifiers_eq (hgh : Rearranged g h) (hg : Indexed g) (hh : Indexed h) :
    g.resolveIdentifiers = h.resolveIdentifiers := by
  funext identifiers
  unfold resolveIdentifiers
  simp only [hgh.resolve?_eq hg hh]

private theorem means (hgh : Rearranged g h) {reference target : String}
    (hmeans : Means g reference target) : Means h reference target := by
  cases hmeans with
  | uid huid => exact .uid ((hgh.exists_uid_iff reference).1 huid)
  | name huid c hname =>
      have hperm := hgh.named reference
      rw [hname] at hperm
      exact .name (fun hex => huid ((hgh.exists_uid_iff reference).2 hex)) c
        hperm.singleton_eq.symm

private theorem asks (hgh : Rearranged g h) {p : PendingRelation} {r : Relation}
    (hasks : Asks g p r) : Asks h p r := by
  obtain ⟨target, hmeans, rfl⟩ := hasks
  exact ⟨target, hgh.means hmeans, rfl⟩

/-! ## The relation pass -/

private theorem mem_keys_relations_iff (hgh : Rearranged g h) (hg : Indexed g) (hh : Indexed h)
    (id : String) : id ∈ Entries.keys g.relations ↔ id ∈ Entries.keys h.relations := by
  rw [hg.relations.mem_keys_iff, hh.relations.mem_keys_iff]
  have hmem : ∀ r, r ∈ g.relations.map Prod.snd ↔ r ∈ h.relations.map Prod.snd :=
    fun r => hgh.relations.mem_iff
  simp only [hmem]

private theorem addable (hgh : Rearranged g h) (hg : Indexed g) (hh : Indexed h)
    {edges others : List Relation} (hperm : edges.Perm others) (hadd : Addable g edges) :
    Addable h others where
  new r hr hmem :=
    hadd.new r (hperm.mem_iff.2 hr) ((hgh.mem_keys_relations_iff hg hh _).2 hmem)
  distinct := (hperm.map Relation.externalId).nodup_iff.1 hadd.distinct

private theorem pending (hgh : Rearranged g h) : g.pending.Perm h.pending :=
  hgh.components.flatMap_right _

private theorem connected (hgh : Rearranged g h) {edges others : List Relation}
    (hperm : edges.Perm others) : Rearranged (g.connected edges) (h.connected others) where
  components := by
    have hlist := hgh.components.map fun c => ({ c with pending := [] } : Component)
    rw [← componentList_withoutPending, ← componentList_withoutPending] at hlist
    exact hlist
  relations := by
    have hlist := hgh.relations.append hperm
    simpa [relationList, Graph.connected, Function.comp_def] using hlist
  health := hgh.health
  events := hgh.events

/-- Where the relation pass succeeds on a graph, it does so on a rearranged one. -/
theorem resolveRelations (hgh : Rearranged g h) (hg : Indexed g) (hh : Indexed h)
    {n : Nat} {k : Graph} (hrun : g.resolveRelations = (.ok n, k)) :
    ∃ m l, h.resolveRelations = (.ok m, l) ∧ Rearranged k l := by
  obtain ⟨edges, hedges, hadd, rfl⟩ := (resolveRelations_eq_ok_iff hg k).1 ⟨n, hrun⟩
  obtain ⟨others, hothers, hperm⟩ := List.perm_comp_forall₂ hgh.pending.symm hedges
  have hasks : List.Forall₂ (Asks h) h.pending others :=
    hothers.imp fun _ _ hone => hgh.asks hone
  have haddable := hgh.addable hg hh hperm.symm hadd
  obtain ⟨m, hm⟩ := (resolveRelations_eq_ok_iff hh _).2 ⟨others, hasks, haddable, rfl⟩
  exact ⟨m, _, hm, hgh.connected hperm.symm⟩

end Rearranged

end InfraGraph.Graph
