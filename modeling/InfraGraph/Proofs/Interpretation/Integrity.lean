import InfraGraph.Proofs.Graph.RelationPass
import InfraGraph.Proofs.Interpretation.Passes

/-!
# The graph that is published

However a sequence of texts fares, the graph that is left is one whose parts fit together: relations
join components, health states tell of components, and events are complete. Each step of a pass
keeps this; failing only means that there are fewer steps.

A health state is known by the name of its component, so that a later component of the same name
takes it over. That is why `Integrity` speaks of the last component of a name.

## Main results

* `Integrity.addComponent`, `Integrity.connected` — what a repetition and the relation pass keep.
* `Sound.advances` — so does every step.
* `integrity_of_units` — every sequence of texts leaves a graph with integrity.
-/

namespace InfraGraph.Interpretation

/-- The parts of a graph fit together. -/
structure Integrity (g : Graph) : Prop where
  source : ∀ r ∈ g.relationList, g.hasComponent r.source = true
  target : ∀ r ∈ g.relationList, g.hasComponent r.target = true
  externalId : ∀ r ∈ g.relationList, r.externalId = r.source ++ " --> " ++ r.target
  uid : ∀ e ∈ g.components, e.1 = e.2.uid
  identifiers : ∀ c ∈ g.componentList, c.identifiers ≠ [] ∧ c.identifiers.Nodup
  declaredBy : ∀ c ∈ g.componentList, ∀ p ∈ c.pending, p.declaredBy = c.uid
  checked : ∀ c ∈ g.componentList,
    ∃ state, g.healthState? (c.name ++ "_static_states") = some state
  /-- A health state tells of the last component of a name. -/
  health : ∀ e ∈ g.health, ∃ c, (g.named c.name).getLast? = some c ∧
    e.1 = c.name ++ "_static_states" ∧ e.2.checkId = e.1 ∧
    c.identifiers.head? = some e.2.topoIdentifier
  events : ∀ e ∈ g.events, e.identifiers ≠ [] ∧
    "old" ∈ Entries.keys e.data ∧ "new" ∈ Entries.keys e.data

namespace Integrity

open InfraGraph.Graph (Indexed Asks edgeTo)

/-- The empty graph has integrity. -/
theorem empty : Integrity Graph.empty := by
  constructor <;> simp [Graph.empty, Graph.relationList, Graph.componentList]

variable {g h : Graph}

/-! ## Registering a component -/

private theorem hasComponent_addComponent {c : Component} (hadd : g.addComponent c = (.ok (), h))
    {uid : String} (huid : g.hasComponent uid = true) :
    h.hasComponent uid = true := by
  rw [Graph.hasComponent, Entries.hasKey_iff] at huid ⊢
  obtain ⟨_, rfl⟩ := Graph.addComponent_eq_ok_iff.1 hadd
  have hkeep := Entries.keys_prefix_insert g.components c.uid c
  exact hkeep.subset huid

/-- Every component is checked after a component and its state were added. -/
theorem checked_addComponent (hi : Integrity g) {c d : Component}
    {state : HealthState} (hbuilt : Built state c)
    (hd : d ∈ g.componentList ++ [c]) :
    ∃ s, Entries.get? (Entries.insert g.health state.checkId state)
      (d.name ++ "_static_states") = some s := by
  rw [Entries.get?_insert]
  by_cases hid : state.checkId = d.name ++ "_static_states"
  · exact ⟨state, if_pos hid⟩
  · rw [if_neg hid]
    rcases List.mem_append.1 hd with hold | hnew
    · exact hi.checked d hold
    · rw [List.mem_singleton.1 hnew] at hid
      exact absurd hbuilt.checkId hid

/-- A new component takes over the state of its name and leaves the others. -/
theorem health_addComponent (hg : Indexed g) (hi : Integrity g) {c : Component}
    {state : HealthState} (hbuilt : Built state c)
    (hadd : g.addComponent c = (.ok (), h)) {e : String × HealthState}
    (he : e ∈ Entries.insert g.health state.checkId state) :
    ∃ d, (h.named d.name).getLast? = some d ∧
      e.1 = d.name ++ "_static_states" ∧ e.2.checkId = e.1 ∧
      d.identifiers.head? = some e.2.topoIdentifier := by
  rcases Entries.mem_insert hg.health.nodup he with rfl | ⟨hmem, hne⟩
  · refine ⟨c, ?_, hbuilt.checkId, rfl, hbuilt.head⟩
    rw [Graph.named_addComponent hadd]
    simp
  · obtain ⟨d, hlast, hkey, hcheck, hhead⟩ := hi.health e hmem
    refine ⟨d, ?_, hkey, hcheck, hhead⟩
    -- Under the same name the new state would have been written over this one.
    have hname : c.name ≠ d.name := by
      intro heq
      exact hne (hkey.trans (by rw [← heq, hbuilt.checkId]; rfl))
    rw [Graph.named_addComponent hadd, if_neg hname, List.append_nil]
    exact hlast

/-- Registering a component that was built preserves integrity. -/
theorem addComponent (hg : Indexed g) (hi : Integrity g) {c : Component}
    {state : HealthState} (hbuilt : Built state c)
    (hadd : g.addComponent c = (.ok (), h)) : Integrity (h.setHealth state) := by
  have hrest := Graph.eq_append_of_addComponent hadd
  have hrelations : h.relationList = g.relationList := by rw [hrest]; rfl
  have hhealth : h.health = g.health := by rw [hrest]
  have hevents : h.events = g.events := by rw [hrest]
  have hlist : (h.setHealth state).componentList = g.componentList ++ [c] := by
    have happend := Graph.componentList_addComponent hadd
    exact happend
  have hmem : ∀ d, d ∈ (h.setHealth state).componentList →
      d ∈ g.componentList ∨ d = c := by
    intro d hd
    rwa [hlist, List.mem_append, List.mem_singleton] at hd
  constructor
  case source =>
      intro r hr
      exact hasComponent_addComponent hadd (hi.source r (hrelations ▸ hr))
  case target =>
      intro r hr
      exact hasComponent_addComponent hadd (hi.target r (hrelations ▸ hr))
  case externalId =>
      intro r hr
      exact hi.externalId r (hrelations ▸ hr)
  case uid => exact (hg.addComponent hadd).components.key_eq
  case identifiers =>
      intro d hd
      rcases hmem d hd with hold | rfl
      · exact hi.identifiers d hold
      · refine ⟨?_, hbuilt.nodup⟩
        intro hnil
        have hhead := hbuilt.head
        rw [hnil] at hhead
        cases hhead
  case declaredBy =>
      intro d hd
      rcases hmem d hd with hold | rfl
      · exact hi.declaredBy d hold
      · exact hbuilt.declaredBy
  case checked =>
      intro d hd
      show ∃ s, Entries.get? (Entries.insert h.health state.checkId state) _ = some s
      rw [hhealth]
      exact checked_addComponent hi hbuilt (hlist ▸ hd)
  case health =>
      intro e he
      refine health_addComponent hg hi hbuilt hadd ?_
      rw [← hhealth]
      exact he
  case events =>
      intro e he
      exact hi.events e (hevents ▸ he)

/-! ## The relation pass -/

/-- What is asked for joins the component that asks and the one that is meant. -/
theorem hasComponent_of_asks (hg : Indexed g) (hi : Integrity g)
    {p : PendingRelation} (hp : p ∈ g.pending) {r : Relation} (hr : Asks g p r) :
    g.hasComponent r.source = true ∧ g.hasComponent r.target = true ∧
      r.externalId = r.source ++ " --> " ++ r.target := by
  obtain ⟨target, hmeans, rfl⟩ := hr
  obtain ⟨c, hc, hpc⟩ := List.mem_flatMap.1 hp
  have hasking : g.hasComponent p.declaredBy = true := by
    rw [Graph.hasComponent_iff hg]
    exact ⟨c, hc, (hi.declaredBy c hc p hpc).symm⟩
  have hmeant : g.hasComponent target = true := by
    rw [Graph.hasComponent_iff hg]
    exact hmeans.mem
  unfold edgeTo
  by_cases hreverse : p.reverse = true
  · rw [if_pos hreverse]
    exact ⟨hmeant, hasking, rfl⟩
  · rw [if_neg hreverse]
    exact ⟨hasking, hmeant, rfl⟩

/-- Adding the edges that pending relations ask for preserves integrity. -/
theorem connected (hg : Indexed g) (hi : Integrity g) {edges : List Relation}
    (hedges : ∀ r ∈ edges, ∃ p ∈ g.pending, Asks g p r) :
    Integrity (g.connected edges) := by
  have hrelation : ∀ r ∈ (g.connected edges).relationList,
      g.hasComponent r.source = true ∧ g.hasComponent r.target = true ∧
        r.externalId = r.source ++ " --> " ++ r.target := by
    intro r hr
    have hmem : r ∈ g.relationList ∨ r ∈ edges := by
      simpa [Graph.relationList, Graph.connected] using hr
    rcases hmem with hold | hnew
    · exact ⟨hi.source r hold, hi.target r hold, hi.externalId r hold⟩
    · obtain ⟨p, hp, hasks⟩ := hedges r hnew
      exact hasComponent_of_asks hg hi hp hasks
  -- The components are the old ones, only that they wait for nothing.
  have hmem : ∀ d ∈ (g.connected edges).componentList,
      ∃ c ∈ g.componentList, d = { c with pending := [] } := by
    intro d hd
    change d ∈ g.withoutPending.componentList at hd
    rw [Graph.componentList_withoutPending] at hd
    obtain ⟨c, hc, rfl⟩ := List.mem_map.1 hd
    exact ⟨c, hc, rfl⟩
  constructor
  case source =>
      intro r hr
      rw [Graph.hasComponent_connected]
      exact (hrelation r hr).1
  case target =>
      intro r hr
      rw [Graph.hasComponent_connected]
      exact (hrelation r hr).2.1
  case externalId =>
      intro r hr
      exact (hrelation r hr).2.2
  case uid => exact hg.withoutPending.components.key_eq
  case identifiers =>
      intro d hd
      obtain ⟨c, hc, rfl⟩ := hmem d hd
      exact hi.identifiers c hc
  case declaredBy =>
      intro d hd p hp
      obtain ⟨c, _, rfl⟩ := hmem d hd
      cases hp
  case checked =>
      intro d hd
      obtain ⟨c, hc, rfl⟩ := hmem d hd
      exact hi.checked c hc
  case health =>
      intro e he
      obtain ⟨c, hlast, hkey, hcheck, hhead⟩ := hi.health e he
      refine ⟨{ c with pending := [] }, ?_, hkey, hcheck, hhead⟩
      show (g.withoutPending.named c.name).getLast? = _
      rw [Graph.named_withoutPending, List.getLast?_map, hlast]
      rfl
  case events => exact hi.events

/-! ## Events -/

private theorem addEvent (hi : Integrity g) {e : Event} (he : Complete e) :
    Integrity (g.addEvent e) := by
  refine { hi with events := ?_ }
  intro f hf
  rcases List.mem_append.1 hf with hold | hnew
  · exact hi.events f hold
  · rw [List.mem_singleton.1 hnew]
    exact ⟨he.identifiers, he.old, he.new⟩

end Integrity

/-! ## Runs -/

/-- A graph with integrity whose index is in step. -/
structure Sound (g : Graph) : Prop where
  indexed : Graph.Indexed g
  integrity : Integrity g

/-- Every step of a pass preserves integrity. -/
theorem Sound.advances {g h : Graph} (hg : Sound g) (hstep : Advances g h) :
    Sound h := by
  cases hstep with
  | component _ hregisters =>
      obtain ⟨c, state, k, hbuilt, hadd, rfl⟩ := hregisters.exists_addComponent
      exact ⟨(hg.indexed.addComponent hadd).setHealth state,
        hg.integrity.addComponent hg.indexed hbuilt hadd⟩
  | relations =>
      obtain ⟨edges, hrun, hedges⟩ := Graph.exists_resolveRelations_eq hg.indexed
      refine ⟨hg.indexed.resolveRelations, ?_⟩
      rw [hrun]
      exact hg.integrity.connected hg.indexed hedges
  | event clock defaults d e hevent =>
      exact ⟨hg.indexed.addEvent e, hg.integrity.addEvent (eventOf_complete hevent)⟩

private theorem Sound.reaches {g h : Graph} (hg : Sound g)
    (hsteps : Relation.ReflTransGen Advances g h) : Sound h := by
  induction hsteps with
  | refl => exact hg
  | tail _ hstep ih => exact ih.advances hstep

/-- A text that is put into a graph, with its name and with the times of its events. -/
structure SourceUnit where
  text : String
  name : String
  clock : Clock

/-- The graph after texts, each put into what the one before it leaves. -/
def interpretUnits (g : Graph) (units : List SourceUnit) : Graph :=
  units.foldl (fun g unit => (interpretText unit.clock unit.text unit.name g).2) g

private theorem Sound.interpretUnits {g : Graph} (hg : Sound g) (units : List SourceUnit) :
    Sound (interpretUnits g units) := by
  induction units generalizing g with
  | nil => exact hg
  | cons unit rest ih =>
      exact ih (hg.reaches (reaches_interpretText unit.clock unit.text unit.name g))

/-- Whatever texts are put into the empty graph one after the other, and however
each of them fares, the parts of the graph that is left fit together. -/
theorem integrity_of_units (units : List SourceUnit) :
    Integrity (interpretUnits Graph.empty units) :=
  (Sound.interpretUnits ⟨.empty, .empty⟩ units).integrity

end InfraGraph.Interpretation
