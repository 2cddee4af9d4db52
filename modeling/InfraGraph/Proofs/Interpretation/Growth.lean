import InfraGraph.Proofs.Interpretation.Passes
import Mathlib.Data.List.Infix

/-!
# Interpretation only adds

A text can be put into a graph that already holds a lot, and may fail at any place. What was in the
graph before is then still there: the first pass registers components behind the others, the
relation pass empties what they wait for and adds edges, and the last pass adds events. Each pass is
described on its own, for any graph, and a text that fails has gone through only some of them.

## Main results

* `Registered.of_reaches` — what the first pass does, also when it fails.
* `connected_resolveRelations` — what the relation pass does, also when it fails.
* `run_interpret` — a text goes through the passes up to the first that fails.
* `interpret_eq_ok_iff` — so it can be put into a graph where all of them succeed.
* `interpretText_grown` — what was in the graph stays, and where the text failed tells what was
  added.
-/

namespace InfraGraph.Interpretation

open Definition (Definitions Property Spanned ComponentDefinition EventDefinition)
open Effect

/-! ## Health states that are kept -/

/-- Every health state keeps its place, and its value unless a component behind
the old ones has its name. -/
def Retains (g h : Graph) : Prop :=
  ∀ (i : Nat) (checkId : String) (s : HealthState),
    g.health[i]? = some (checkId, s) → ∃ t, h.health[i]? = some (checkId, t) ∧
      (t = s ∨ ∃ c ∈ h.componentList.drop g.componentList.length,
        checkId = c.name ++ "_static_states")

theorem Retains.refl (g : Graph) : Retains g g :=
  fun _ _ s hs => ⟨s, hs, Or.inl rfl⟩

/-- Health states that are kept twice are kept, if components are only added. -/
theorem Retains.trans {g h k : Graph}
    (hold : g.componentList <+: h.componentList)
    (hnew : h.componentList <+: k.componentList)
    (hgh : Retains g h) (hhk : Retains h k) : Retains g k := by
  intro i checkId s hs
  obtain ⟨t, ht, hchange⟩ := hgh i checkId s hs
  obtain ⟨u, hu, hlater⟩ := hhk i checkId t ht
  refine ⟨u, hu, ?_⟩
  rcases hlater with rfl | ⟨c, hc, hname⟩
  · rcases hchange with rfl | ⟨c, hc, hname⟩
    · exact Or.inl rfl
    · exact Or.inr ⟨c, (hnew.drop _).subset hc, hname⟩
  · have hsub := List.drop_sublist_drop_left k.componentList hold.length_le
    exact Or.inr ⟨c, hsub.subset hc, hname⟩

/-! ## The first pass -/

/-- The second graph is the first one with components registered. -/
structure Registered (g h : Graph) : Prop where
  components : g.components <+: h.components
  relations : h.relations = g.relations
  events : h.events = g.events
  health : Retains g h

namespace Registered

variable {g h k : Graph}

theorem refl (g : Graph) : Registered g g :=
  ⟨List.prefix_rfl, rfl, rfl, .refl g⟩

theorem trans (hgh : Registered g h) (hhk : Registered h k) : Registered g k where
  components := hgh.components.trans hhk.components
  relations := hhk.relations.trans hgh.relations
  events := hhk.events.trans hgh.events
  health := .trans (hgh.components.map _) (hhk.components.map _) hgh.health hhk.health

/-- A repetition goes behind the other components and takes over the health state
of its name. -/
theorem of_registers (hregisters : Registers g h) : Registered g h := by
  obtain ⟨c, state, k, hbuilt, hadd, rfl⟩ := hregisters.exists_addComponent
  have hrest := Graph.eq_append_of_addComponent hadd
  have hlist : (k.setHealth state).componentList = g.componentList ++ [c] := by
    have happend := Graph.componentList_addComponent hadd
    exact happend
  have hhealth : (k.setHealth state).health =
      Entries.insert g.health state.checkId state := by
    rw [hrest]
    rfl
  refine ⟨?_, by rw [hrest]; rfl, by rw [hrest]; rfl, ?_⟩
  · show g.components <+: k.components
    rw [hrest]
    exact List.prefix_append _ _
  · intro i checkId s hs
    rw [hhealth, hlist]
    rcases Entries.getElem?_insert hs state.checkId state with hsame | ⟨hkey, hwritten⟩
    · exact ⟨s, hsame, Or.inl rfl⟩
    · obtain rfl : checkId = state.checkId := hkey
      refine ⟨state, hwritten, Or.inr ⟨c, ?_, hbuilt.checkId⟩⟩
      rw [List.drop_left]
      exact List.mem_singleton_self c

/-- Registering components one after the other only registers components. -/
theorem of_reaches (hsteps : Relation.ReflTransGen Registers g h) :
    Registered g h := by
  induction hsteps with
  | refl => exact .refl g
  | tail _ hstep ih => exact ih.trans (.of_registers hstep)

end Registered

/-! ## The relation pass -/

/-- The second graph is the first one with edges in the place of what components
wait for. -/
structure Connected (g h : Graph) : Prop where
  components : h.components = g.withoutPending.components
  relations : g.relations <+: h.relations
  health : h.health = g.health
  events : h.events = g.events

/-- The relation pass connects what was pending, also when it fails. -/
theorem connected_resolveRelations (g : Graph) : Connected g g.resolveRelations.2 := by
  have hstart : Connected g g.withoutPending := ⟨rfl, List.prefix_rfl, rfl, rfl⟩
  refine Graph.connectAll_induction hstart (fun h r k hgh hadd => ?_) g.pending
  rw [Graph.eq_append_of_addRelation hadd]
  exact { hgh with relations := hgh.relations.trans (List.prefix_append _ _) }

theorem Connected.componentList_eq {g h : Graph} (hgh : Connected g h) :
    h.componentList = g.componentList.map fun c => { c with pending := [] } := by
  rw [← Graph.componentList_withoutPending]
  exact congrArg (List.map Prod.snd) hgh.components

/-! ## Texts -/

/-- What was in the first graph is in the second one. -/
structure Grown (g h : Graph) : Prop where
  /-- Only what components wait for is taken from them, from all at once. -/
  components : g.components <+: h.components ∨
    g.withoutPending.components <+: h.components
  relations : g.relations <+: h.relations
  events : g.events <+: h.events
  health : Retains g h

/-- Registering components adds to a graph. -/
theorem Registered.grown {g h : Graph} (hgh : Registered g h) : Grown g h where
  components := Or.inl hgh.components
  relations := by rw [hgh.relations]
  events := by rw [hgh.events]
  health := hgh.health

/-- The later passes keep what the first one has kept. -/
theorem Registered.grown_withEvents {g h k : Graph} (hgh : Registered g h)
    (hhk : Connected h k) (es : List Event) : Grown g (withEvents k es) where
  components := by
    refine Or.inr ?_
    show g.withoutPending.components <+: k.components
    rw [hhk.components]
    exact hgh.components.map _
  relations := by
    have hrelations := hhk.relations
    rwa [hgh.relations] at hrelations
  events := by
    show g.events <+: k.events ++ es
    rw [hhk.events, hgh.events]
    exact List.prefix_append _ _
  health := by
    intro i checkId s hs
    obtain ⟨t, ht, hchange⟩ := hgh.health i checkId s hs
    refine ⟨t, ?_, ?_⟩
    · show k.health[i]? = _
      rw [hhk.health]
      exact ht
    · rcases hchange with rfl | ⟨c, hc, hname⟩
      · exact Or.inl rfl
      · refine Or.inr ⟨{ c with pending := [] }, ?_, hname⟩
        have hlist : (withEvents k es).componentList =
            h.componentList.map fun c => { c with pending := [] } := hhk.componentList_eq
        rw [hlist, ← List.map_drop]
        exact List.mem_map_of_mem hc

/-- The properties that the components and events of definitions fall back on. -/
def defaultsOf (d : Definitions) : Option (List (Spanned Property)) :=
  d.defaults.map Spanned.node

/-- A text goes through the passes up to the first that fails. -/
theorem run_interpret (clock : Clock) (d : Definitions) (g : Graph) :
    (interpret clock d).run g =
      match (addComponents (defaultsOf d) d.components).run g with
      | (.error e, h) => (.error e, h)
      | (.ok n, h) =>
        match h.resolveRelations with
        | (.error e, k) => (.error e, k)
        | (.ok m, k) =>
          match (addEvents clock (defaultsOf d) d.events).run k with
          | (.error e, l) => (.error e, l)
          | (.ok r, l) => (.ok ⟨n, m, r⟩, l) := by
  unfold interpret defaultsOf
  dsimp only
  rw [run_bind]
  rcases (addComponents (d.defaults.map Spanned.node) d.components).run g with
    ⟨e | n, h⟩
  · rfl
  · dsimp only
    rw [run_bind, run_of]
    rcases h.resolveRelations with ⟨e | m, k⟩
    · rfl
    · dsimp only
      rw [run_bind]
      rcases (addEvents clock (d.defaults.map Spanned.node) d.events).run k with
        ⟨e | r, l⟩
      · rfl
      · rfl

/-- A text can be put into a graph where each pass succeeds on what the one before it left. -/
theorem interpret_eq_ok_iff {clock : Clock} {d : Definitions} {g h : Graph} {s : Summary} :
    (interpret clock d).run g = (.ok s, h) ↔
      ∃ k l, (addComponents (defaultsOf d) d.components).run g = (.ok s.components, k) ∧
        k.resolveRelations = (.ok s.relations, l) ∧
        (addEvents clock (defaultsOf d) d.events).run l = (.ok s.events, h) := by
  rw [run_interpret]
  constructor
  · intro hrun
    rcases hfirst : (addComponents (defaultsOf d) d.components).run g with ⟨cause | n, k⟩
    · rw [hfirst] at hrun
      cases hrun
    rw [hfirst] at hrun
    dsimp only at hrun
    rcases hsecond : k.resolveRelations with ⟨cause | m, l⟩
    · rw [hsecond] at hrun
      cases hrun
    rw [hsecond] at hrun
    dsimp only at hrun
    rcases hthird : (addEvents clock (defaultsOf d) d.events).run l with ⟨cause | r, h'⟩
    · rw [hthird] at hrun
      cases hrun
    rw [hthird] at hrun
    cases hrun
    exact ⟨k, l, rfl, hsecond, hthird⟩
  · rintro ⟨k, l, hfirst, hsecond, hthird⟩
    rw [hfirst]
    dsimp only
    rw [hsecond]
    dsimp only
    rw [hthird]

/-- Once the components are registered, the relation pass runs, and no more than
events are added to what it leaves. -/
theorem exists_withEvents_of_addComponents (clock : Clock) {d : Definitions} {g h : Graph} {n : Nat}
    (hfirst : (addComponents (defaultsOf d) d.components).run g = (.ok n, h)) :
    ∃ es, ((interpret clock d).run g).2 = withEvents h.resolveRelations.2 es := by
  rw [run_interpret, hfirst]
  dsimp only
  rcases h.resolveRelations with ⟨e | m, k⟩
  · exact ⟨[], (withEvents_nil k).symm⟩
  · dsimp only
    rcases addEvents_cases clock (defaultsOf d) d.events k with ⟨es, _, hrun⟩ |
      ⟨before, f, after, es, e, _, _, _, hrun⟩
    · rw [hrun]
      exact ⟨es, rfl⟩
    · rw [hrun]
      exact ⟨es, rfl⟩

private theorem interpret_grown (clock : Clock) (d : Definitions) (g : Graph) :
    Grown g ((interpret clock d).run g).2 := by
  have hregistered := Registered.of_reaches
    (keeps_addComponents (defaultsOf d) d.components g)
  rcases hfirst : (addComponents (defaultsOf d) d.components).run g with ⟨e | n, h⟩
  · rw [run_interpret, hfirst]
    rw [hfirst] at hregistered
    exact hregistered.grown
  · obtain ⟨es, hes⟩ := exists_withEvents_of_addComponents clock hfirst
    rw [hfirst] at hregistered
    rw [hes]
    exact hregistered.grown_withEvents (connected_resolveRelations h) es

private theorem interpretText_eq (clock : Clock) {text : String} {d : Definitions}
    (hread : Definitions.read text.toList = .ok d) (name : String) (g : Graph) :
    interpretText clock text name g =
      (((interpret clock d).run g).1.mapError .wrong, ((interpret clock d).run g).2) := by
  unfold interpretText
  rw [hread]
  rfl

/-- Putting a text into a graph only adds to it. If a component fails, nothing but
components and their health states was added; if the relation pass fails, no
event was; and if an event fails, exactly the events before it were. -/
theorem interpretText_grown (clock : Clock) (text name : String) (g : Graph) :
    Grown g (interpretText clock text name g).2 ∧
    (∀ errors, Definitions.read text.toList = .error errors →
      interpretText clock text name g =
        (.error (.unreadable name text.toList errors), g)) ∧
    ∀ d, Definitions.read text.toList = .ok d →
      (∀ e h, (addComponents (defaultsOf d) d.components).run g = (.error e, h) →
        interpretText clock text name g = (.error (.wrong e), h) ∧
        g.components <+: h.components ∧ h.relations = g.relations ∧
        h.events = g.events) ∧
      (∀ n h e k, (addComponents (defaultsOf d) d.components).run g = (.ok n, h) →
        h.resolveRelations = (.error e, k) →
        interpretText clock text name g = (.error (.wrong e), k) ∧
        k.events = g.events) ∧
      (∀ n h m k e l, (addComponents (defaultsOf d) d.components).run g = (.ok n, h) →
        h.resolveRelations = (.ok m, k) →
        (addEvents clock (defaultsOf d) d.events).run k = (.error e, l) →
        interpretText clock text name g = (.error (.wrong e), l) ∧
        ∃ before f after es, d.events = before ++ f :: after ∧
          es.length = before.length ∧ Reports clock (defaultsOf d) k before es ∧
          eventOf clock (defaultsOf d) f.node l = .error e ∧
          l = { k with events := g.events ++ es }) := by
  refine ⟨?_, ?_, ?_⟩
  · unfold interpretText
    split
    · exact (Registered.refl g).grown
    · exact interpret_grown clock _ g
  · intro errors hread
    unfold interpretText
    rw [hread]
  · intro d hread
    have htext := interpretText_eq clock hread name g
    have hfirst := Registered.of_reaches
      (keeps_addComponents (defaultsOf d) d.components g)
    rw [run_interpret] at htext
    refine ⟨?_, ?_, ?_⟩
    · intro e h hcomponents
      rw [hcomponents] at htext hfirst
      exact ⟨htext, hfirst.components, hfirst.relations, hfirst.events⟩
    · intro n h e k hcomponents hrelations
      have hsecond := connected_resolveRelations h
      rw [hcomponents] at htext hfirst
      dsimp only at htext
      rw [hrelations] at htext hsecond
      exact ⟨htext, hsecond.events.trans hfirst.events⟩
    · intro n h m k e l hcomponents hrelations hevents
      have hsecond := connected_resolveRelations h
      rw [hcomponents] at htext hfirst
      dsimp only at htext
      rw [hrelations] at htext hsecond
      dsimp only at htext
      rw [hevents] at htext
      refine ⟨htext, ?_⟩
      rcases addEvents_cases clock (defaultsOf d) d.events k with ⟨es, _, hrun⟩ |
        ⟨before, f, after, es, cause, heq, hbefore, hfail, hrun⟩
      · rw [hrun] at hevents
        cases hevents
      · rw [hrun] at hevents
        cases hevents
        refine ⟨before, f, after, es, heq, hbefore.length_eq, hbefore, hfail, ?_⟩
        have hkept : k.events = g.events := hsecond.events.trans hfirst.events
        rw [withEvents, hkept]

end InfraGraph.Interpretation
