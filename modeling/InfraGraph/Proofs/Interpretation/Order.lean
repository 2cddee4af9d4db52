import InfraGraph.Proofs.Graph.Rearrangement
import InfraGraph.Proofs.Interpretation.CodeFree
import InfraGraph.Proofs.Interpretation.Growth
import InfraGraph.Proofs.Interpretation.Timestamps

/-!
# The order of component definitions

Without code, a definition stands for the same components wherever it is written: the first pass
only registers them, one after the other. Whether that succeeds is said by their uids alone, which
must all differ, so it does not depend on their order; nor does what the later passes make of the
graph.

## Main results

* `exists_addComponents_iff` — the first pass registers what the definitions stand for.
* `exists_registerAll_iff` — registering succeeds where all uids differ.
* `interpret_perm` — definitions of components may be put into any order.
-/

namespace InfraGraph.Interpretation

open Definition (Definitions Property Spanned ComponentDefinition EventDefinition)
open InfraGraph.Graph (Indexed Rearranged Operation)
open Effect

/-! ## Registering -/

/-- The graph with a built component and its health state. -/
def register (g : Graph) (e : Component × HealthState) : Except SemanticError Graph :=
  let (result, h) := g.addComponent e.1
  result.map fun () => h.setHealth e.2

/-- The graph with built components, registered in order. -/
def registerAll (g : Graph) : List (Component × HealthState) → Except SemanticError Graph
  | [] => .ok g
  | e :: rest => do registerAll (← register g e) rest

/-- What registering components has done to a graph. -/
structure Enrolled (g : Graph) (es : List (Component × HealthState)) (h : Graph) :
    Prop where
  indexed : Indexed h
  components : h.componentList = g.componentList ++ es.map Prod.fst
  relations : h.relations = g.relations
  events : h.events = g.events
  health : ∀ checkId, checkId ∈ Entries.keys h.health ↔
    checkId ∈ Entries.keys g.health ∨ ∃ e ∈ es, e.2.checkId = checkId

section Registering

variable {g h : Graph} {es others : List (Component × HealthState)}

private theorem registerAll_cons_eq_ok_iff {e : Component × HealthState} :
    registerAll g (e :: es) = .ok h ↔
      ∃ k, register g e = .ok k ∧ registerAll k es = .ok h := by
  rw [show registerAll g (e :: es) = (register g e >>= fun k => registerAll k es) from rfl]
  cases register g e with
  | error cause => simp [bind, Except.bind]
  | ok k => simp [bind, Except.bind]

private theorem registerAll_append_eq_ok_iff :
    registerAll g (es ++ others) = .ok h ↔
      ∃ k, registerAll g es = .ok k ∧ registerAll k others = .ok h := by
  induction es generalizing g with
  | nil => simp [registerAll]
  | cons e rest ih =>
      simp only [List.cons_append, registerAll_cons_eq_ok_iff, ih]
      constructor
      · rintro ⟨l, hl, k, hk, hh⟩
        exact ⟨k, ⟨l, hl, hk⟩, hh⟩
      · rintro ⟨k, ⟨l, hl, hk⟩, hh⟩
        exact ⟨l, hl, k, hk, hh⟩

private theorem register_eq_ok_iff {e : Component × HealthState} :
    register g e = .ok h ↔ ∃ k, g.addComponent e.1 = (.ok (), k) ∧ h = k.setHealth e.2 := by
  unfold register
  rcases g.addComponent e.1 with ⟨cause | ⟨⟩, k⟩
  · simp [Except.map]
  · simp [Except.map, eq_comm]

/-- Registering a component enrolls it. -/
theorem enrolled_of_register (hg : Indexed g) {e : Component × HealthState}
    (hreg : register g e = .ok h) : Enrolled g [e] h := by
  obtain ⟨k, hadd, rfl⟩ := register_eq_ok_iff.1 hreg
  have hrest := Graph.eq_append_of_addComponent hadd
  have hlist := Graph.componentList_addComponent hadd
  refine
    { indexed := (hg.addComponent hadd).setHealth e.2
      components := hlist
      relations := by rw [hrest]; rfl
      events := by rw [hrest]; rfl
      health := ?_ }
  intro checkId
  have hhealth : (k.setHealth e.2).health =
      Entries.insert g.health e.2.checkId e.2 := by
    rw [hrest]
    rfl
  rw [hhealth, Entries.keys_insert]
  by_cases hmem : e.2.checkId ∈ Entries.keys g.health
  · have hkey : e.2.checkId = checkId → checkId ∈ Entries.keys g.health :=
      fun heq => heq ▸ hmem
    rw [if_pos hmem]
    simpa using hkey
  · rw [if_neg hmem]
    simp [eq_comm]

/-- Components may be enrolled one group after the other. -/
theorem Enrolled.trans {k : Graph} (hgh : Enrolled g es h) (hhk : Enrolled h others k) :
    Enrolled g (es ++ others) k where
  indexed := hhk.indexed
  components := by
    rw [hhk.components, hgh.components, List.map_append, List.append_assoc]
  relations := hhk.relations.trans hgh.relations
  events := hhk.events.trans hgh.events
  health checkId := by
    rw [hhk.health, hgh.health]
    simp only [List.mem_append, or_and_right, exists_or, or_assoc]

private theorem enrolled_of_registerAll (hg : Indexed g) (hreg : registerAll g es = .ok h) :
    Enrolled g es h := by
  induction es generalizing g with
  | nil =>
      cases hreg
      exact ⟨hg, by simp, rfl, rfl, by simp⟩
  | cons e rest ih =>
      obtain ⟨k, hk, hrest⟩ := registerAll_cons_eq_ok_iff.1 hreg
      have hfirst := enrolled_of_register hg hk
      exact hfirst.trans (ih hfirst.indexed hrest)

/-- Components can be registered where their uids differ from each other and from
those that are there. -/
theorem exists_registerAll_iff (hg : Indexed g) :
    (∃ h, registerAll g es = .ok h) ↔
      ((g.componentList ++ es.map Prod.fst).map Component.uid).Nodup := by
  induction es generalizing g with
  | nil =>
      have hnodup := hg.components.nodup
      rw [hg.components.keys_eq] at hnodup
      simpa [registerAll, Graph.componentList] using hnodup
  | cons e rest ih =>
      have hshift : g.componentList ++ (e :: rest).map Prod.fst =
          (g.componentList ++ [e.1]) ++ rest.map Prod.fst := by
        simp
      rw [hshift]
      constructor
      · rintro ⟨h, hh⟩
        obtain ⟨k, hk, hrest⟩ := registerAll_cons_eq_ok_iff.1 hh
        have hfirst := enrolled_of_register hg hk
        rw [show g.componentList ++ [e.1] = k.componentList from hfirst.components.symm]
        exact (ih hfirst.indexed).1 ⟨h, hrest⟩
      · intro hnodup
        -- The uid of the first one is new, so it can be registered.
        have hnew : g.hasComponent e.1.uid = false := by
          rw [← Bool.not_eq_true, Graph.hasComponent_iff hg]
          rintro ⟨c, hc, huid⟩
          rw [List.map_append, List.map_append] at hnodup
          have hdisjoint := (List.nodup_append.1 (List.nodup_append.1 hnodup).1).2.2
          exact hdisjoint _ (List.mem_map_of_mem hc) e.1.uid (by simp) huid
        obtain ⟨k, hk⟩ : ∃ k, register g e = .ok k :=
          ⟨_, register_eq_ok_iff.2 ⟨_, Graph.addComponent_eq_ok_iff.2 ⟨hnew, rfl⟩, rfl⟩⟩
        have hfirst := enrolled_of_register hg hk
        rw [show g.componentList ++ [e.1] = k.componentList from
          hfirst.components.symm] at hnodup
        obtain ⟨h, hrest⟩ := (ih hfirst.indexed).2 hnodup
        exact ⟨h, registerAll_cons_eq_ok_iff.2 ⟨k, hk, hrest⟩⟩

private theorem Enrolled.rearranged {k : Graph} (hgh : Enrolled g es h)
    (hgk : Enrolled g others k) (hperm : es.Perm others) : Rearranged h k where
  components := by
    rw [hgh.components, hgk.components]
    exact (hperm.map Prod.fst).append_left _
  relations := by
    rw [Graph.relationList, Graph.relationList, hgh.relations, hgk.relations]
  health checkId := by
    rw [hgh.health, hgk.health]
    simp only [hperm.mem_iff]
  events := by rw [hgh.events, hgk.events]

/-- In another order, the same components can be registered. -/
theorem exists_registerAll_perm (hg : Indexed g) (hperm : es.Perm others)
    (hreg : registerAll g es = .ok h) :
    ∃ k, registerAll g others = .ok k ∧ Rearranged h k ∧ Indexed h ∧ Indexed k := by
  have hnodup := (exists_registerAll_iff hg).1 ⟨h, hreg⟩
  have hlist := ((hperm.map Prod.fst).append_left g.componentList).map Component.uid
  obtain ⟨k, hk⟩ := (exists_registerAll_iff hg).2 (hlist.nodup_iff.1 hnodup)
  have hgh := enrolled_of_registerAll hg hreg
  have hgk := enrolled_of_registerAll hg hk
  exact ⟨k, hk, hgh.rearranged hgk hperm, hgh.indexed, hgk.indexed⟩

end Registering

/-! ## What definitions stand for -/

/-- The component that properties build, and its health state. -/
def built (layers : Layers) (componentType : String) :
    Except SemanticError (Component × HealthState) :=
  let (result, c) := (buildComponent ⟨Graph.empty, 0⟩ layers componentType).run
    (Component.blank componentType)
  result.map fun state => (c, state)

private theorem built_eq_ok_iff {layers : Layers} {componentType : String}
    {e : Component × HealthState} :
    built layers componentType = .ok e ↔
      (buildComponent ⟨Graph.empty, 0⟩ layers componentType).run (.blank componentType) =
        (.ok e.2, e.1) := by
  unfold built
  rcases (buildComponent ⟨Graph.empty, 0⟩ layers componentType).run (.blank componentType) with
    ⟨cause | state, c⟩
  all_goals
    constructor
    all_goals
      intro h
      cases h
  · rfl
  · rfl

/-- A definition stands for as many copies of what it builds as it says. -/
structure Expands (defaults : Option (List (Spanned Property)))
    (d : ComponentDefinition) (es : List (Component × HealthState)) : Prop where
  count : repetitions Graph.empty (layersOf defaults d) d.componentType.node =
    .ok es.length
  built : ∀ e ∈ es, built (layersOf defaults d) d.componentType.node = .ok e

section Expansion

variable {layers : Layers} {g h : Graph}

namespace Layers.CodeFree

private theorem addRepetition_eq_ok_iff (hfree : layers.CodeFree) (componentType : String)
    (repetition : Nat) : addRepetition layers componentType repetition g = (.ok (), h) ↔
      ∃ e, built layers componentType = .ok e ∧ register g e = .ok h := by
  rw [Interpretation.addRepetition_eq_ok_iff,
    hfree.buildComponent_eq ⟨g, Int64.ofNat repetition⟩ ⟨Graph.empty, 0⟩]
  constructor
  · rintro ⟨state, c, k, hbuild, hadd, rfl⟩
    exact ⟨(c, state), built_eq_ok_iff.2 hbuild, register_eq_ok_iff.2 ⟨k, hadd, rfl⟩⟩
  · rintro ⟨⟨c, state⟩, hbuilt, hregister⟩
    obtain ⟨k, hadd, hk⟩ := register_eq_ok_iff.1 hregister
    exact ⟨state, c, k, built_eq_ok_iff.1 hbuilt, hadd, hk⟩

private theorem addRepetitions_eq_ok_iff (hfree : layers.CodeFree) (componentType : String)
    (count repetition : Nat) (g : Graph) :
    addRepetitions layers componentType count repetition g = (.ok (), h) ↔
      ∃ es : List (Component × HealthState), es.length = count ∧
        (∀ e ∈ es, built layers componentType = .ok e) ∧ registerAll g es = .ok h := by
  induction count generalizing repetition g with
  | zero =>
      constructor
      · intro hrun
        cases hrun
        exact ⟨[], rfl, by simp, rfl⟩
      · rintro ⟨es, hlength, _, hreg⟩
        rw [List.eq_nil_of_length_eq_zero hlength] at hreg
        cases hreg
        rfl
  | succ count ih =>
      rw [addRepetitions_succ_eq_ok_iff]
      constructor
      · rintro ⟨k, hone, hmore⟩
        obtain ⟨e, he, hk⟩ := (hfree.addRepetition_eq_ok_iff _ _).1 hone
        obtain ⟨es, hlength, hes, hreg⟩ := (ih _ k).1 hmore
        exact ⟨e :: es, by simp [hlength], by simpa [he] using hes,
          registerAll_cons_eq_ok_iff.2 ⟨k, hk, hreg⟩⟩
      · rintro ⟨es, hlength, hes, hreg⟩
        cases es with
        | nil => simp at hlength
        | cons e rest =>
            obtain ⟨k, hk, hrest⟩ := registerAll_cons_eq_ok_iff.1 hreg
            have hone := (hfree.addRepetition_eq_ok_iff componentType repetition).2
              ⟨e, hes e List.mem_cons_self, hk⟩
            refine ⟨k, hone, (ih _ k).2 ⟨rest, by simpa using hlength, fun f hf => ?_, hrest⟩⟩
            exact hes f (List.mem_cons_of_mem e hf)

end Layers.CodeFree

variable {defaults : Option (List (Spanned Property))}

/-- A definition registers what it stands for. -/
theorem exists_addDefinition_iff {d : ComponentDefinition}
    (hfree : (layersOf defaults d).CodeFree) (g : Graph) :
    (∃ n, (addDefinition defaults d).run g = (.ok n, h)) ↔
      ∃ es, Expands defaults d es ∧ registerAll g es = .ok h := by
  have hall := fun count =>
    hfree.addRepetitions_eq_ok_iff (h := h) d.componentType.node count 0 g
  constructor
  · rintro ⟨n, hn⟩
    obtain ⟨hcount, hadd⟩ := addDefinition_eq_ok_iff.1 hn
    obtain ⟨es, rfl, hes, hreg⟩ := (hall n).1 hadd
    rw [hfree.repetitions_eq g Graph.empty] at hcount
    exact ⟨es, ⟨hcount, hes⟩, hreg⟩
  · rintro ⟨es, hes, hreg⟩
    have hcount := hes.count
    rw [hfree.repetitions_eq Graph.empty g] at hcount
    exact ⟨es.length, addDefinition_eq_ok_iff.2
      ⟨hcount, (hall es.length).2 ⟨es, rfl, hes.built, hreg⟩⟩⟩

/-- The first pass registers all that the definitions stand for. -/
theorem exists_addComponents_iff {ds : List (Spanned ComponentDefinition)}
    (hfree : ∀ d ∈ ds, (layersOf defaults d.node).CodeFree) (g : Graph) :
    (∃ n, (addComponents defaults ds).run g = (.ok n, h)) ↔
      ∃ ess, List.Forall₂ (fun d es => Expands defaults d.node es) ds ess ∧
        registerAll g ess.flatten = .ok h := by
  induction ds generalizing g with
  | nil =>
      constructor
      · rintro ⟨n, hn⟩
        cases hn
        exact ⟨[], .nil, rfl⟩
      · rintro ⟨ess, hess, hreg⟩
        cases hess
        cases hreg
        exact ⟨0, rfl⟩
  | cons d rest ih =>
      have hrest : ∀ d ∈ rest, (layersOf defaults d.node).CodeFree :=
        fun e he => hfree e (List.mem_cons_of_mem d he)
      have hone := fun k : Graph =>
        exists_addDefinition_iff (h := k) (hfree d List.mem_cons_self) g
      constructor
      · rintro ⟨n, hn⟩
        obtain ⟨a, k, b, hfirst, hmore, _⟩ := addComponents_cons_eq_ok_iff.1 hn
        obtain ⟨es, hes, hk⟩ := (hone k).1 ⟨a, hfirst⟩
        obtain ⟨ess, hess, hh⟩ := (ih hrest k).1 ⟨b, hmore⟩
        refine ⟨es :: ess, .cons hes hess, ?_⟩
        rw [List.flatten_cons]
        exact registerAll_append_eq_ok_iff.2 ⟨k, hk, hh⟩
      · rintro ⟨ess, hess, hreg⟩
        obtain ⟨es, more, hes, hmore, rfl⟩ := List.forall₂_cons_left_iff.1 hess
        rw [List.flatten_cons] at hreg
        obtain ⟨k, hk, hh⟩ := registerAll_append_eq_ok_iff.1 hreg
        obtain ⟨a, hfirst⟩ := (hone k).2 ⟨es, hes, hk⟩
        obtain ⟨b, hrun⟩ := (ih hrest k).2 ⟨more, hmore, hh⟩
        exact ⟨a + b, addComponents_cons_eq_ok_iff.2 ⟨a, k, b, hfirst, hrun, rfl⟩⟩

end Expansion

/-! ## The passes in another order -/

section Passes

variable {defaults : Option (List (Spanned Property))} {g h k l : Graph}

/-- The first pass succeeds in another order and leaves a rearranged graph. -/
theorem addComponents_perm {ds others : List (Spanned ComponentDefinition)}
    (hfree : ∀ d ∈ ds, (layersOf defaults d.node).CodeFree) (hperm : ds.Perm others)
    (hg : Indexed g) {n : Nat} (hrun : (addComponents defaults ds).run g = (.ok n, h)) :
    ∃ m k, (addComponents defaults others).run g = (.ok m, k) ∧
      Rearranged h k ∧ Indexed h ∧ Indexed k := by
  obtain ⟨ess, hess, hreg⟩ := (exists_addComponents_iff hfree g).1 ⟨n, hrun⟩
  obtain ⟨ots, hots, hsame⟩ := List.perm_comp_forall₂ hperm.symm hess
  obtain ⟨k, hk, hhk, hh, hindexed⟩ := exists_registerAll_perm hg hsame.symm.flatten hreg
  have hothers : ∀ d ∈ others, (layersOf defaults d.node).CodeFree :=
    fun d hd => hfree d (hperm.mem_iff.2 hd)
  obtain ⟨m, hm⟩ := (exists_addComponents_iff hothers g).2 ⟨ots, hots, hk⟩
  exact ⟨m, k, hm, hhk, hh, hindexed⟩

private theorem eventOf_congr (clock : Clock) {d : EventDefinition}
    (hd : Definition.CodeFree d.properties) (hdefaults : ∀ properties, defaults = some properties →
      Definition.CodeFree properties)
    (hkl : Rearranged k l) (hk : Indexed k) (hl : Indexed l) :
    eventOf clock defaults d k = eventOf clock defaults d l := by
  have hfree : ((Layers.of d.properties defaults d.kind.node.text).withDefaultKeys
      eventDefaultKeys).CodeFree :=
    (Layers.codeFree_of hd hdefaults).withDefaultKeys eventDefaultKeys
  have hcount : k.events.length = l.events.length := by
    have hlength := congrArg List.length hkl.events
    rwa [List.length_map, List.length_map] at hlength
  unfold eventOf
  simp only [hfree.buildEvent_eq ⟨k, 0⟩ ⟨l, 0⟩ (hkl.resolveIdentifiers_eq hk hl), hcount]

private theorem rearranged_addEvent (hkl : Rearranged k l) {e f : Event}
    (hef : e.untimed = f.untimed) :
    Rearranged (k.addEvent e) (l.addEvent f) where
  components := hkl.components
  relations := hkl.relations
  health := hkl.health
  events := by
    rw [Graph.addEvent, Graph.addEvent, List.map_append, List.map_append, hkl.events,
      List.map_singleton, List.map_singleton, hef]

/-- The last pass adds the same events to rearranged graphs, but for their times. -/
theorem addEvents_rearranged (clock later : Clock) {ds : List (Spanned EventDefinition)}
    (hds : ∀ d ∈ ds, Definition.CodeFree d.node.properties)
    (hdefaults : ∀ properties, defaults = some properties →
      Definition.CodeFree properties)
    (hkl : Rearranged k l) (hk : Indexed k) (hl : Indexed l) {n : Nat}
    (hrun : (addEvents clock defaults ds).run k = (.ok n, g)) :
    ∃ h, (addEvents later defaults ds).run l = (.ok n, h) ∧ Rearranged g h := by
  induction ds generalizing k l n with
  | nil =>
      cases hrun
      exact ⟨l, rfl, hkl⟩
  | cons d rest ih =>
      have hevent := eventOf_congr clock (hds d List.mem_cons_self) hdefaults hkl hk hl
      have hlater := eventOf_stamped clock later defaults d.node l
      unfold addEvents at hrun ⊢
      obtain ⟨⟨⟩, k', hfirst, hmore⟩ := run_bind_eq_ok hrun
      obtain ⟨m, k'', hsecond, hpure⟩ := run_bind_eq_ok hmore
      cases hpure
      rw [run_addEvent] at hfirst
      cases hone : eventOf clock defaults d.node k with
      | error cause => rw [hone] at hfirst; cases hfirst
      | ok e =>
          rw [hone] at hfirst
          cases hfirst
          rw [← hevent, hone] at hlater
          obtain ⟨h, hh, hgh⟩ := ih (fun f hf => hds f (List.mem_cons_of_mem d hf))
            (rearranged_addEvent hkl (e.untimed_stamped (later l.events.length)).symm)
            (hk.addEvent e) (hl.addEvent _) hsecond
          refine ⟨h, ?_, hgh⟩
          rw [run_bind, run_addEvent, hlater]
          dsimp only [Except.map]
          rw [run_bind, hh]
          rfl

/-- If definitions can be put into a graph, so they can with their components in
another order. -/
theorem interpret_rearranged (clock later : Clock) {d : Definitions} (hfree : d.CodeFree)
    {components : List (Spanned ComponentDefinition)}
    (hperm : d.components.Perm components) (hg : Indexed g) {s : Summary}
    (hrun : (interpret clock d).run g = (.ok s, h)) :
    ∃ t k, (interpret later { d with components }).run g = (.ok t, k) ∧ Rearranged h k := by
  have hdefaults : ∀ properties, defaultsOf d = some properties →
      Definition.CodeFree properties := by
    intro properties hproperties
    obtain ⟨spanned, hspanned, rfl⟩ := Option.map_eq_some_iff.1 hproperties
    exact hfree.defaults spanned hspanned
  have hlayers : ∀ c ∈ d.components, (layersOf (defaultsOf d) c.node).CodeFree :=
    fun c hc => Layers.codeFree_of (hfree.components c hc) hdefaults
  obtain ⟨h₁, h₂, hfirst, hsecond, hthird⟩ := interpret_eq_ok_iff.1 hrun
  obtain ⟨n, k₁, hother₁, halike₁, hh₁, hk₁⟩ := addComponents_perm hlayers hperm hg hfirst
  obtain ⟨m, k₂, hother₂, halike₂⟩ := halike₁.resolveRelations hh₁ hk₁ hsecond
  have hh₂ := hh₁.resolveRelations
  have hk₂ := hk₁.resolveRelations
  rw [hsecond] at hh₂
  rw [hother₂] at hk₂
  obtain ⟨k₃, hother₃, halike₃⟩ :=
    addEvents_rearranged clock later hfree.events hdefaults halike₂ hh₂ hk₂ hthird
  have hrunother : (interpret later { d with components }).run g = (.ok ⟨n, m, s.events⟩, k₃) :=
    interpret_eq_ok_iff.2 ⟨k₁, k₂, hother₁, hother₂, hother₃⟩
  exact ⟨_, k₃, hrunother, halike₃⟩

end Passes

/-- Definitions stay free of code when components change their places. -/
theorem CodeFree.perm {d : Definitions} (hfree : d.CodeFree)
    {components : List (Spanned ComponentDefinition)}
    (hperm : d.components.Perm components) :
    Definitions.CodeFree { d with components } where
  defaults := hfree.defaults
  components c hc := hfree.components c (hperm.mem_iff.2 hc)
  events := hfree.events

/-- Two texts do the same to a graph, whenever they are put into it, but for the order of what they
add and for the times of the events. -/
structure Interchangeable (g : Graph) (d other : Definitions) : Prop where
  succeeds : ∀ clock later : Clock, (∃ s h, (interpret clock d).run g = (.ok s, h)) ↔
    ∃ t k, (interpret later other).run g = (.ok t, k)
  rearranged : ∀ (clock later : Clock) s h t k, (interpret clock d).run g = (.ok s, h) →
    (interpret later other).run g = (.ok t, k) → Rearranged h k

/-- Definitions without code may list their components in any order: they can be put
into a graph in one order if they can in the other, and the graphs then hold the same
components, relations and health checks, and the same events in the same order, but for the times
at which they were made. -/
theorem interpret_perm (ops : List Operation) (d : Definitions) (hfree : d.CodeFree)
    (components : List (Spanned ComponentDefinition))
    (hperm : d.components.Perm components) :
    Interchangeable (Graph.empty.run ops) d { d with components } := by
  have hg : Indexed (Graph.empty.run ops) := Indexed.empty.run ops
  constructor
  case succeeds =>
      intro clock later
      constructor
      · rintro ⟨s, h, hrun⟩
        obtain ⟨t, k, hother, _⟩ := interpret_rearranged clock later hfree hperm hg hrun
        exact ⟨t, k, hother⟩
      · rintro ⟨t, k, hrun⟩
        obtain ⟨s, h, hd, _⟩ :=
          interpret_rearranged later clock (CodeFree.perm hfree hperm) hperm.symm hg hrun
        exact ⟨s, h, hd⟩
  case rearranged =>
      intro clock later s h t k hrun hother
      obtain ⟨t', k', hother', halike⟩ := interpret_rearranged clock later hfree hperm hg hrun
      rw [hother'] at hother
      cases hother
      exact halike

/-- A host that is defined by its name alone. -/
def hostNamed (name relation : String) : Spanned ComponentDefinition :=
  let placed {α : Type} (a : α) : Spanned α := ⟨⟨0, 0⟩, a⟩
  placed ⟨placed "Host", [placed ⟨placed .name, placed (.string name)⟩,
    placed ⟨placed .relations, placed (.list [placed (.string relation)])⟩]⟩

/-- Two hosts that refer to each other, one of them before the other is known. -/
theorem interpret_perm_hosts :
    let d : Definitions := ⟨none, [hostNamed "web" "<db", hostNamed "db" "<web|backs"], []⟩
    let components := [hostNamed "db" "<web|backs", hostNamed "web" "<db"]
    d.CodeFree ∧ d.components.Perm components ∧
      Interchangeable (Graph.empty.run []) d { d with components } := by
  intro d components
  have hfree : d.CodeFree := by
    refine ⟨by simp [d], ?_, by simp [d]⟩
    simp [d, hostNamed, Definition.CodeFree, Definition.Literal.isCodeFree,
      Definition.Literal.codeFreeItems]
  have hperm : d.components.Perm components := .swap _ _ _
  exact ⟨hfree, hperm, interpret_perm [] d hfree components hperm⟩

end InfraGraph.Interpretation
