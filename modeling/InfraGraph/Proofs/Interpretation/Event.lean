import InfraGraph.Interpretation.Event
import InfraGraph.Proofs.Graph.References
import InfraGraph.Proofs.Interpretation.Layers

/-!
# What a built event is like

An event is built in stages, like a component. Its data are set before its processor runs, which can
add to them but take nothing away, and it is looked at last whether the event concerns any element;
resolving the elements then changes their names but not their number.

## Main results

* `keeps_onEvent` — looking up a property decorates the event.
* `eventOf_complete` — an event that is built is complete.
* `run_addEvent` — an event is added if it can be built.
-/

namespace InfraGraph.Interpretation

open Block (Surroundings Subject)
open Definition (Property Spanned EventDefinition)
open Effect

/-- Looking at properties of an event decorates it. -/
theorem keeps_onEvent {α : Type} {work : Work Subject α}
    (hwork : Keeps Subject.Decorated work) :
    Keeps Event.Decorated (onEvent work) := by
  intro e
  have hrel := (hwork ⟨none, some e⟩).event
  show e.Decorated ((work.run ⟨none, some e⟩).2.event.getD e)
  generalize (work.run ⟨none, some e⟩).2.event = after at hrel ⊢
  cases hrel with
  | some hd => exact hd

/-! ## Stages -/

/-- An event that says what its elements were like before and after. -/
structure Compared (e : Event) : Prop where
  old : "old" ∈ Entries.keys e.data
  new : "new" ∈ Entries.keys e.data

/-- An event that moreover concerns an element. -/
structure Complete (e : Event) : Prop extends Compared e where
  identifiers : e.identifiers ≠ []

private theorem Compared.decorated {e f : Event} (h : e.Decorated f) (he : Compared e) :
    Compared f :=
  ⟨h.data.subset he.old, h.data.subset he.new⟩

private theorem compared_setData (e : Event) (old new : Value) :
    Compared ((e.setData "old" old).setData "new" new) := by
  constructor
  · have hkeep := Entries.keys_prefix_insert (Entries.insert e.data "old" old) "new" new
    refine hkeep.subset ((Entries.get?_isSome_iff _ _).1 ?_)
    rw [Entries.get?_insert_self]
    rfl
  · refine (Entries.get?_isSome_iff _ _).1 ?_
    rw [Event.setData, Entries.get?_insert_self]
    rfl

/-! ## Building -/

section Build

variable {α β : Type} {P : Event → Prop} {T : β → Event → Prop}

/-- Nothing needs to be known about a step before the data are set. -/
theorem yields_any {work : Work Event α} {next : α → Work Event β}
    (hnext : ∀ a, Yields (fun _ => True) (next a) T) :
    Yields (fun _ => True) (do next (← work)) T :=
  Yields.bind (Q := fun _ _ => True) (fun _ _ _ _ _ => trivial) hnext

/-- A step that only computes changes nothing. -/
theorem yields_ofResult {result : Except SemanticError α} {Q : α → Event → Prop}
    (h : ∀ a e, result = .ok a → P e → Q a e) : Yields P (ofResult result) Q := by
  cases result with
  | ok a => exact .pure fun e he => h a e rfl he
  | error e => exact .throw e

/-- The last stage: there must be identifiers, and they are resolved. -/
theorem yields_resolved (g : Graph) (title : String) :
    Yields Compared (do
      if (← get).identifiers.isEmpty then throw (.emptyIdentifiers title)
      let resolved ← ofResult (g.resolveIdentifiers (← get).identifiers)
      modify fun e => { e with identifiers := resolved }) fun _ => Complete := by
  have hresolve : Yields (fun e => Compared e ∧ e.identifiers ≠ []) (do
      let resolved ← ofResult (g.resolveIdentifiers (← get).identifiers)
      modify fun e => { e with identifiers := resolved }) fun _ => Complete := by
    refine Yields.get.bind fun e => ?_
    refine Yields.bind (Q := fun resolved f => Compared f ∧ resolved ≠ [])
      (yields_ofResult ?_) fun resolved => ?_
    · rintro resolved f hresolved ⟨rfl, hf, hsome⟩
      refine ⟨hf, fun hnone => hsome ?_⟩
      have hlength := (Graph.forall₂_of_resolveIdentifiers hresolved).length_eq
      rw [hnone] at hlength
      exact List.eq_nil_of_length_eq_zero hlength
    · exact .modify fun f ⟨hf, hsome⟩ => ⟨⟨hf.old, hf.new⟩, hsome⟩
  refine Yields.get.bind fun e => ?_
  dsimp only
  by_cases hnone : e.identifiers.isEmpty = true
  · rw [if_pos hnone]
    exact Yields.bind (Q := fun _ _ => False) (.throw _) fun _ _ h => h.elim
  · rw [if_neg hnone]
    rintro f ⟨rfl, hf⟩
    exact hresolve e ⟨hf, fun h => hnone (by rw [h]; rfl)⟩

end Build

private theorem buildEvent_complete (around : Surroundings) (layers : Layers) :
    Yields (fun _ => True) (buildEvent around layers) fun _ => Complete := by
  unfold buildEvent
  -- Up to the data, nothing is needed of what is looked up.
  refine yields_any fun title => ?_
  refine yields_any fun _ => yields_any fun _ => ?_
  refine yields_any fun _ => yields_any fun _ => ?_
  refine yields_any fun _ => yields_any fun _ => ?_
  refine yields_any fun _ => yields_any fun _ => ?_
  refine yields_any fun _ => yields_any fun previous => yields_any fun current => ?_
  -- From here on the data are set, and no decoration takes them away.
  refine Yields.bind (Q := fun _ => Compared)
    (.modify fun e _ => compared_setData e _ _) fun _ => ?_
  refine Yields.bind (Q := fun _ => Compared) ((keeps_onEvent
    ((layers.named title).keeps_runProcessors around .processor .eventProcessor)).yields
      fun _ _ h he => he.decorated h) fun _ => ?_
  exact yields_resolved around.graph title

/-- An event that is built is complete, whatever code its definition contains. -/
theorem eventOf_complete {clock : Clock} {defaults : Option (List (Spanned Property))}
    {d : EventDefinition} {g : Graph} {e : Event}
    (h : eventOf clock defaults d g = .ok e) : Complete e := by
  unfold eventOf at h
  obtain ⟨⟨⟩, hresult, hok⟩ := Block.exists_of_bind_eq_ok h
  cases hok
  exact buildEvent_complete _ _ _ trivial _ _ (Prod.ext hresult rfl)

/-- An event is added if it can be built; else nothing is. -/
theorem run_addEvent (clock : Clock) (defaults : Option (List (Spanned Property)))
    (d : EventDefinition) (g : Graph) : (addEvent clock defaults d).run g =
      match eventOf clock defaults d g with
      | .ok e => (.ok (), g.addEvent e)
      | .error e => (.error e, g) := by
  unfold addEvent
  rw [run_bind, run_get]
  dsimp only
  cases eventOf clock defaults d g with
  | ok e => rfl
  | error e => rfl

end InfraGraph.Interpretation
