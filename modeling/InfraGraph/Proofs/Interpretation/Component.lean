import InfraGraph.Interpretation.Component
import InfraGraph.Proofs.Interpretation.Layers

/-!
# What a built component is like

A component is built in stages, and the code of every property that is looked up may decorate what
is there so far. Each stage establishes something that no decoration undoes: the name, then the uid,
then a first identifier. The health state is taken before the relations are looked up, so that their
code may still add identifiers, but it cannot put one before the first.

## Main results

* `keeps_onComponent` — looking up a property decorates the component.
* `buildComponent_built` — a component agrees with its health state when it is built.
-/

namespace InfraGraph.Interpretation

open Block (Surroundings Subject)
open Effect

/-- Looking at properties of a component decorates it. -/
theorem keeps_onComponent {α : Type} {work : Work Subject α}
    (hwork : Keeps Subject.Decorated work) :
    Keeps Component.Decorated (onComponent work) := by
  intro c
  have hrel := (hwork ⟨some c, none⟩).component
  show c.Decorated ((work.run ⟨some c, none⟩).2.component.getD c)
  generalize (work.run ⟨some c, none⟩).2.component = after at hrel ⊢
  cases hrel with
  | some hd => exact hd

/-! ## Stages -/

/-- A component with a name. -/
structure Named (name : String) (c : Component) : Prop where
  name_eq : c.name = name
  nodup : c.identifiers.Nodup

/-- A component with a name and a uid. -/
structure Identified (name uid : String) (c : Component) : Prop
    extends Named name c where
  uid_eq : c.uid = uid

/-- A component with a name, a uid and a first identifier. -/
structure Seeded (name uid first : String) (c : Component) : Prop
    extends Identified name uid c where
  head : c.identifiers.head? = some first

/-- A component and the health state that was taken from it. -/
structure Built (state : HealthState) (c : Component) : Prop where
  nodup : c.identifiers.Nodup
  head : c.identifiers.head? = some state.topoIdentifier
  checkId : state.checkId = HealthState.checkIdOf c.name
  declaredBy : ∀ p ∈ c.pending, p.declaredBy = c.uid

section Stable

variable {name uid first : String} {c d : Component}

/-- Decorating a component keeps its name. -/
theorem Named.decorated (h : c.Decorated d) (hc : Named name c) : Named name d :=
  ⟨h.name.trans hc.name_eq, h.nodup hc.nodup⟩

/-- Decorating a component keeps its name and its uid. -/
theorem Identified.decorated (h : c.Decorated d) (hc : Identified name uid c) :
    Identified name uid d :=
  ⟨hc.toNamed.decorated h, h.uid.trans hc.uid_eq⟩

/-- The first of a list stays the first when the list grows at its end. -/
theorem Seeded.decorated (h : c.Decorated d) (hc : Seeded name uid first c) :
    Seeded name uid first d := by
  refine ⟨hc.toIdentified.decorated h, ?_⟩
  obtain ⟨more, hmore⟩ := h.identifiers
  rw [← hmore, List.head?_append, hc.head]
  rfl

private theorem Identified.addIdentifiers (hc : Identified name uid c)
    (identifiers : List String) :
    Identified name uid (identifiers.foldl Component.addIdentifier c) := by
  induction identifiers generalizing c with
  | nil => exact hc
  | cons identifier rest ih =>
      exact ih (hc.decorated (c.decorated_addIdentifier identifier))

/-- A component without identifiers takes its uid for one. -/
theorem Identified.seeded (hc : Identified name uid c) :
    ∃ first, Seeded name uid first
      (if c.identifiers.isEmpty then { c with identifiers := [uid] } else c) := by
  obtain ⟨⟨hname, hnodup⟩, huid⟩ := hc
  cases hidentifiers : c.identifiers with
  | nil => exact ⟨uid, ⟨⟨hname, by simp⟩, huid⟩, rfl⟩
  | cons first rest =>
      refine ⟨first, ⟨⟨hname, ?_⟩, huid⟩, by simp [hidentifiers]⟩
      simpa [hidentifiers] using hnodup

end Stable

private theorem ofComponent_eq_ok {c : Component} {health message : String}
    {state : HealthState}
    (h : HealthState.ofComponent c health message = .ok state) :
    state.checkId = HealthState.checkIdOf c.name ∧
      state.topoIdentifier = c.topoIdentifier := by
  unfold HealthState.ofComponent at h
  obtain ⟨⟨checkName, value⟩, _, hstate⟩ := Block.exists_of_bind_eq_ok h
  cases hstate
  exact ⟨rfl, rfl⟩

/-! ## Building -/

section Build

variable {α β : Type} {P : Component → Prop} {Q : α → Component → Prop}
  {T : β → Component → Prop}

/-- A property is looked up and goes into a field. -/
theorem yields_field {work : Work Subject α} (hwork : Keeps Subject.Decorated work)
    (hP : ∀ c d, c.Decorated d → P c → P d) {f : α → Component → Component}
    (hf : ∀ a c, P c → Q a (f a c)) {next : α → Work Component β}
    (hnext : ∀ a, Yields (Q a) (next a) T) :
    Yields P (do
      let a ← onComponent work
      modify (f a)
      next a) T :=
  ((keeps_onComponent hwork).yields hP).bind fun a =>
    (Yields.modify fun c hc => hf a c hc).bind fun _ => hnext a

/-- The last stage: the relations are looked up and wait under the uid. -/
theorem yields_relations (around : Surroundings) (layers : Layers)
    {name uid : String} {state : HealthState}
    (hcheck : state.checkId = HealthState.checkIdOf name) :
    Yields (Seeded name uid state.topoIdentifier) (do
      let relations ← onComponent (layers.mergeStrings around .relations)
      modify fun c =>
        { c with pending := relations.map (PendingRelation.read uid) }
      return state) Built := by
  refine yields_field
    (Q := fun _ c => Seeded name uid state.topoIdentifier c ∧
      ∀ p ∈ c.pending, p.declaredBy = c.uid)
    (layers.keeps_mergeStrings around .relations) (fun _ _ h hc => hc.decorated h)
    ?_ fun _ => ?_
  · intro relations c hc
    refine ⟨⟨⟨⟨hc.name_eq, hc.nodup⟩, hc.uid_eq⟩, hc.head⟩, fun p hp => ?_⟩
    obtain ⟨item, _, rfl⟩ := List.mem_map.1 hp
    exact hc.uid_eq.symm
  · refine .pure fun c ⟨hc, hpending⟩ => ?_
    exact ⟨hc.nodup, hc.head, by rw [hcheck, hc.name_eq], hpending⟩

end Build

/-- A component is built together with the health state that is taken from it. -/
theorem buildComponent_built (around : Surroundings) (layers : Layers)
    (componentType : String) :
    Yields (fun c => c.identifiers.Nodup)
      (buildComponent around layers componentType) Built := by
  unfold buildComponent
  refine yields_field (Q := Named) (layers.keeps_requireString around .name)
    (fun _ _ h hc => h.nodup hc) ?_ fun name => ?_
  · exact fun name c hc => ⟨rfl, hc⟩
  have hnamed : ∀ c d, c.Decorated d → Named name c → Named name d :=
    fun _ _ h hc => hc.decorated h
  -- Until the uid is known, the properties only fill fields.
  refine yields_field (Q := fun _ => Named name)
    ((layers.named name).keeps_mergeMap around .data) hnamed ?_ fun _ => ?_
  · exact fun _ _ hc => ⟨hc.1, hc.2⟩
  refine yields_field (Q := fun _ => Named name)
    ((layers.named name).keeps_stringOr around .layer _) hnamed ?_ fun _ => ?_
  · exact fun _ _ hc => ⟨hc.1, hc.2⟩
  refine yields_field (Q := fun _ => Named name)
    ((layers.named name).keeps_stringOr around .domain _) hnamed ?_ fun _ => ?_
  · exact fun _ _ hc => ⟨hc.1, hc.2⟩
  refine yields_field (Q := fun _ => Named name)
    ((layers.named name).keeps_stringOr around .environment _) hnamed ?_ fun _ => ?_
  · exact fun _ _ hc => ⟨hc.1, hc.2⟩
  refine yields_field (Q := fun _ => Named name)
    ((layers.named name).keeps_mergeStrings around .labels) hnamed ?_ fun _ => ?_
  · exact fun _ _ hc => ⟨hc.1, hc.2⟩
  refine yields_field
    (Q := fun id => Identified name (id.getD (synthesizeUid componentType name)))
    ((layers.named name).keeps_string? around .id) hnamed ?_ fun id => ?_
  · exact fun _ _ hc => ⟨⟨hc.1, hc.2⟩, rfl⟩
  generalize id.getD (synthesizeUid componentType name) = uid
  refine yields_field (Q := fun _ => Identified name uid)
    ((layers.named name).keeps_mergeStrings around .identifiers)
    (fun _ _ h hc => hc.decorated h) ?_ fun _ => ?_
  · exact fun identifiers _ hc => hc.addIdentifiers identifiers
  -- From here on there is a first identifier, and it stays the first.
  let Ready (c : Component) : Prop := ∃ first, Seeded name uid first c
  have hready : ∀ c d, c.Decorated d → Ready c → Ready d :=
    fun _ _ h ⟨first, hc⟩ => ⟨first, hc.decorated h⟩
  refine Yields.bind (Q := fun _ => Ready) (.modify fun c hc => hc.seeded) fun _ => ?_
  refine Yields.bind (Q := fun _ => Ready) ((keeps_onComponent
    ((layers.named name).keeps_runProcessors around .processor .processor)).yields
      hready) fun _ => ?_
  refine Yields.bind (Q := fun _ => Ready) ((keeps_onComponent
    ((layers.named name).keeps_stringOr around .health _)).yields hready)
    fun health => ?_
  refine Yields.bind (Q := fun _ => Ready) ((keeps_onComponent
    ((layers.named name).keeps_stringOr around .healthMessage _)).yields hready)
    fun message => ?_
  refine Yields.get.bind fun c => ?_
  dsimp only
  cases hstate : HealthState.ofComponent c health message with
  | error e => exact Yields.bind (Q := fun _ _ => False) (.throw e) fun _ _ h => h.elim
  | ok state =>
      obtain ⟨hcheck, htopo⟩ := ofComponent_eq_ok hstate
      refine Yields.bind (Q := fun a d => a = state ∧
        HealthState.checkIdOf c.name = HealthState.checkIdOf name ∧
        Seeded name uid state.topoIdentifier d) (.pure ?_) fun a => ?_
      · rintro d ⟨rfl, first, hc⟩
        have hfirst : state.topoIdentifier = first := by
          rw [htopo, Component.topoIdentifier, hc.head]
          rfl
        exact ⟨rfl, by rw [hc.name_eq], hfirst ▸ hc⟩
      · rintro d ⟨rfl, hname, hc⟩
        exact yields_relations around (layers.named name) (hcheck.trans hname) d hc

end InfraGraph.Interpretation
