import InfraGraph.Interpretation.Source
import InfraGraph.Proofs.Interpretation.Agreement
import InfraGraph.Proofs.Interpretation.Component
import InfraGraph.Proofs.Interpretation.Event
import Mathlib.Logic.Relation

/-!
# The passes as steps of the graph

Putting a text into a graph changes the graph step by step: a repetition of a component is
registered, the relation pass runs, or an event is added. A pass that fails ends with fewer steps
and nothing else, so that every graph it can leave behind is reached by steps.

## Main results

* `addRepetition_eq_ok_iff`, `addDefinition_eq_ok_iff` — how repetitions and definitions succeed.
* `Registers.exists_addComponent` — what one repetition does to the graph.
* `keeps_addComponents` — the first pass only registers components.
* `addEvents_cases` — the last pass adds events in order, up to the first that cannot be built.
* `reaches_interpretText` — what a text does to a graph is a sequence of steps.
-/

namespace InfraGraph.Interpretation

open Definition (Definitions Property Spanned ComponentDefinition EventDefinition)
open Effect

/-! ## Repetitions -/

section Repetitions

variable {layers : Layers} {componentType : String} {repetition count : Nat} {g h : Graph}

/-- A repetition is added where it can be built and its uid is new. -/
theorem addRepetition_eq_ok_iff :
    addRepetition layers componentType repetition g = (.ok (), h) ↔
      ∃ state c k, (buildComponent ⟨g, Int64.ofNat repetition⟩ layers componentType).run
          (.blank componentType) = (.ok state, c) ∧
        g.addComponent c = (.ok (), k) ∧ h = k.setHealth state := by
  unfold addRepetition
  constructor
  · intro hok
    rcases hbuild : (buildComponent ⟨g, Int64.ofNat repetition⟩ layers componentType).run
      (.blank componentType) with ⟨cause | state, c⟩
    · rw [hbuild] at hok
      cases hok
    · rw [hbuild] at hok
      dsimp only at hok
      rcases hadd : g.addComponent c with ⟨cause | ⟨⟩, k⟩
      · rw [hadd] at hok
        cases hok
      · rw [hadd] at hok
        cases hok
        exact ⟨state, c, k, rfl, hadd, rfl⟩
  · rintro ⟨state, c, k, hbuild, hadd, rfl⟩
    rw [hbuild]
    dsimp only
    rw [hadd]

/-- A repetition that cannot be built, or whose uid is there already, changes nothing. -/
theorem eq_of_addRepetition_eq_error {cause : SemanticError}
    (herror : addRepetition layers componentType repetition g = (.error cause, h)) : h = g := by
  unfold addRepetition at herror
  rcases hbuild : (buildComponent ⟨g, Int64.ofNat repetition⟩ layers componentType).run
    (.blank componentType) with ⟨e | state, c⟩
  · rw [hbuild] at herror
    cases herror
    rfl
  · rw [hbuild] at herror
    dsimp only at herror
    rcases hadd : g.addComponent c with ⟨e | ⟨⟩, k⟩
    · rw [hadd] at herror
      cases herror
      exact (Graph.addComponent_eq_error_iff.1 hadd).2.2
    · rw [hadd] at herror
      cases herror

/-- Repetitions are added one after the other. -/
theorem addRepetitions_succ_eq_ok_iff :
    addRepetitions layers componentType (count + 1) repetition g = (.ok (), h) ↔
      ∃ k, addRepetition layers componentType repetition g = (.ok (), k) ∧
        addRepetitions layers componentType count (repetition + 1) k = (.ok (), h) := by
  rw [addRepetitions]
  rcases addRepetition layers componentType repetition g with ⟨cause | ⟨⟩, k⟩
  · simp
  · simp

end Repetitions

/-! ## Steps -/

/-- A repetition of a component is registered. -/
def Registers (g h : Graph) : Prop :=
  ∃ layers componentType repetition,
    addRepetition layers componentType repetition g = (.ok (), h)

/-- A step of interpretation. -/
inductive Advances (g : Graph) : Graph → Prop where
  | component (h : Graph) (hregisters : Registers g h) : Advances g h
  | relations : Advances g g.resolveRelations.2
  | event (clock : Clock) (defaults : Option (List (Spanned Property))) (d : EventDefinition)
      (e : Event) (hevent : eventOf clock defaults d g = .ok e) :
      Advances g (g.addEvent e)

/-- A repetition adds a built component and its health state. -/
theorem Registers.exists_addComponent {g h : Graph} (hregisters : Registers g h) :
    ∃ c state k, Built state c ∧ g.addComponent c = (.ok (), k) ∧
      h = k.setHealth state := by
  obtain ⟨layers, componentType, repetition, hok⟩ := hregisters
  obtain ⟨state, c, k, hbuild, hadd, hk⟩ := addRepetition_eq_ok_iff.1 hok
  have hnodup : (Component.blank componentType).identifiers.Nodup := .nil
  have hbuilt := buildComponent_built _ layers componentType _ hnodup state c hbuild
  exact ⟨c, state, k, hbuilt, hadd, hk⟩

/-! ## The components -/

private theorem registers_addRepetitions (layers : Layers) (componentType : String)
    (count repetition : Nat) (g : Graph) :
    Relation.ReflTransGen Registers g
      (addRepetitions layers componentType count repetition g).2 := by
  induction count generalizing repetition g with
  | zero => exact .refl
  | succ count ih =>
      unfold addRepetitions
      rcases hstep : addRepetition layers componentType repetition g with ⟨e | ⟨⟩, h⟩
      · obtain rfl := eq_of_addRepetition_eq_error hstep
        exact .refl
      · exact .head ⟨layers, componentType, repetition, hstep⟩ (ih _ h)

/-- A definition is added where its number is known and each repetition is added. -/
theorem addDefinition_eq_ok_iff {defaults : Option (List (Spanned Property))}
    {d : ComponentDefinition} {n : Nat} {g h : Graph} :
    (addDefinition defaults d).run g = (.ok n, h) ↔
      repetitions g (layersOf defaults d) d.componentType.node = .ok n ∧
        addRepetitions (layersOf defaults d) d.componentType.node n 0 g = (.ok (), h) := by
  unfold addDefinition layersOf
  rw [run_of]
  dsimp only
  constructor
  · intro hrun
    cases hcount : repetitions g (.of d.properties defaults d.componentType.node)
        d.componentType.node with
    | error cause => rw [hcount] at hrun; cases hrun
    | ok count =>
        rw [hcount] at hrun
        dsimp only at hrun
        rcases hall : addRepetitions (.of d.properties defaults d.componentType.node)
          d.componentType.node count 0 g with ⟨cause | ⟨⟩, k⟩
        · rw [hall] at hrun
          cases hrun
        · rw [hall] at hrun
          cases hrun
          exact ⟨rfl, hall⟩
  · rintro ⟨hcount, hall⟩
    rw [hcount]
    dsimp only
    rw [hall]
    rfl

/-- Definitions are added one after the other, and what each has added is summed up. -/
theorem addComponents_cons_eq_ok_iff {defaults : Option (List (Spanned Property))}
    {d : Spanned ComponentDefinition} {ds : List (Spanned ComponentDefinition)} {n : Nat}
    {g h : Graph} :
    (addComponents defaults (d :: ds)).run g = (.ok n, h) ↔
      ∃ a k b, (addDefinition defaults d.node).run g = (.ok a, k) ∧
        (addComponents defaults ds).run k = (.ok b, h) ∧ n = a + b := by
  rw [addComponents]
  constructor
  · intro hrun
    obtain ⟨a, k, hfirst, hmore⟩ := run_bind_eq_ok hrun
    obtain ⟨b, l, hrest, hsum⟩ := run_bind_eq_ok hmore
    cases hsum
    exact ⟨a, k, b, hfirst, hrest, rfl⟩
  · rintro ⟨a, k, b, hfirst, hrest, rfl⟩
    rw [run_bind, hfirst]
    dsimp only
    rw [run_bind, hrest]
    rfl

private theorem keeps_addDefinition (defaults : Option (List (Spanned Property)))
    (d : ComponentDefinition) :
    Keeps (Relation.ReflTransGen Registers) (addDefinition defaults d) := by
  refine keeps_of fun g => ?_
  dsimp only
  split
  · exact .refl
  · exact registers_addRepetitions _ _ _ _ g

/-- The first pass only registers components, also when it fails. -/
theorem keeps_addComponents (defaults : Option (List (Spanned Property)))
    (ds : List (Spanned ComponentDefinition)) :
    Keeps (Relation.ReflTransGen Registers) (addComponents defaults ds) := by
  induction ds with
  | nil => exact .pure _
  | cons d rest ih =>
      exact (keeps_addDefinition defaults d.node).bind fun _ =>
        ih.bind fun _ => .pure _

/-! ## The events -/

/-- The graph with events more. -/
def withEvents (g : Graph) (es : List Event) : Graph :=
  { g with events := g.events ++ es }

theorem withEvents_nil (g : Graph) : withEvents g [] = g := by
  simp [withEvents]

/-- Events are added one after the other. -/
theorem withEvents_addEvent (g : Graph) (e : Event) (es : List Event) :
    withEvents (g.addEvent e) es = withEvents g (e :: es) := by
  simp [withEvents, Graph.addEvent]

/-- Definitions and the events they stand for, each built where the ones before
it have been added. -/
inductive Reports (clock : Clock) (defaults : Option (List (Spanned Property))) :
    Graph → List (Spanned EventDefinition) → List Event → Prop where
  | nil (g : Graph) : Reports clock defaults g [] []
  | cons {g : Graph} {d : Spanned EventDefinition} {e : Event}
      {ds : List (Spanned EventDefinition)} {es : List Event}
      (hevent : eventOf clock defaults d.node g = .ok e)
      (hrest : Reports clock defaults (g.addEvent e) ds es) :
      Reports clock defaults g (d :: ds) (e :: es)

section Events

variable {clock : Clock} {defaults : Option (List (Spanned Property))} {g : Graph}
  {ds : List (Spanned EventDefinition)} {es : List Event}

/-- Every definition stands for one event. -/
theorem Reports.length_eq (h : Reports clock defaults g ds es) : es.length = ds.length := by
  induction h with
  | nil => rfl
  | cons _ _ ih => rw [List.length_cons, List.length_cons, ih]

private theorem Reports.reaches (h : Reports clock defaults g ds es) :
    Relation.ReflTransGen Advances g (withEvents g es) := by
  induction h with
  | nil g => rw [withEvents_nil]
  | cons hevent _ ih =>
      rw [withEvents_addEvent] at ih
      exact .head (.event clock defaults _ _ hevent) ih

/-- The events are added in order, up to the first that cannot be built. -/
theorem addEvents_cases (clock : Clock) (defaults : Option (List (Spanned Property)))
    (ds : List (Spanned EventDefinition)) (g : Graph) :
    (∃ es, Reports clock defaults g ds es ∧
      (addEvents clock defaults ds).run g = (.ok ds.length, withEvents g es)) ∨
    ∃ before d after es e, ds = before ++ d :: after ∧
      Reports clock defaults g before es ∧
      eventOf clock defaults d.node (withEvents g es) = .error e ∧
      (addEvents clock defaults ds).run g = (.error e, withEvents g es) := by
  induction ds generalizing g with
  | nil => exact Or.inl ⟨[], .nil g, by rw [withEvents_nil]; rfl⟩
  | cons d rest ih =>
      have hstep := run_addEvent clock defaults d.node g
      unfold addEvents
      rw [run_bind, hstep]
      cases hevent : eventOf clock defaults d.node g with
      | error cause =>
          refine Or.inr ⟨[], d, rest, [], cause, rfl, .nil g, ?_, ?_⟩
          · rw [withEvents_nil]
            exact hevent
          · rw [withEvents_nil]
      | ok e =>
          dsimp only
          rw [run_bind]
          rcases ih (g.addEvent e) with ⟨es, hes, hrun⟩ |
            ⟨before, f, after, es, cause, rfl, hbefore, hfail, hrun⟩
          · refine Or.inl ⟨e :: es, .cons hevent hes, ?_⟩
            rw [hrun, withEvents_addEvent, List.length_cons, Nat.add_comm]
            rfl
          · refine Or.inr ⟨d :: before, f, after, e :: es, cause, rfl,
              .cons hevent hbefore, ?_, ?_⟩
            · rw [← withEvents_addEvent]
              exact hfail
            · rw [hrun, withEvents_addEvent]

/-- The last pass adds an event for each definition. -/
theorem addEvents_eq_ok {n : Nat} {h : Graph}
    (hrun : (addEvents clock defaults ds).run g = (.ok n, h)) :
    n = ds.length ∧ ∃ es, Reports clock defaults g ds es ∧ h = withEvents g es := by
  rcases addEvents_cases clock defaults ds g with ⟨es, hes, hall⟩ |
    ⟨before, d, after, es, e, _, _, _, hfail⟩
  · rw [hall] at hrun
    cases hrun
    exact ⟨rfl, es, hes, rfl⟩
  · rw [hfail] at hrun
    cases hrun

end Events

private theorem keeps_addEvents (clock : Clock) (defaults : Option (List (Spanned Property)))
    (ds : List (Spanned EventDefinition)) :
    Keeps (Relation.ReflTransGen Advances) (addEvents clock defaults ds) := by
  intro g
  rcases addEvents_cases clock defaults ds g with ⟨es, hes, hrun⟩ |
    ⟨before, d, after, es, e, _, hbefore, _, hrun⟩
  · rw [hrun]
    exact hes.reaches
  · rw [hrun]
    exact hbefore.reaches

/-! ## Texts -/

private theorem keeps_interpret (clock : Clock) (d : Definitions) :
    Keeps (Relation.ReflTransGen Advances) (interpret clock d) := by
  have hcomponents : Keeps (Relation.ReflTransGen Advances)
      (addComponents (d.defaults.map Spanned.node) d.components) := fun g =>
    Relation.ReflTransGen.mono (fun _ h hregisters => .component h hregisters) _ _
      (keeps_addComponents _ _ g)
  refine hcomponents.bind fun _ => ?_
  refine Keeps.bind (keeps_of fun g => .single .relations) fun _ => ?_
  exact (keeps_addEvents _ _ _).bind fun _ => .pure _

/-- Whether a text can be put into a graph or not, the graph after it is reached
by steps. -/
theorem reaches_interpretText (clock : Clock) (text name : String) (g : Graph) :
    Relation.ReflTransGen Advances g (interpretText clock text name g).2 := by
  unfold interpretText
  split
  · exact .refl
  · exact keeps_interpret _ _ g

end InfraGraph.Interpretation
