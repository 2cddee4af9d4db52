import InfraGraph.Proofs.Block.Timestamps
import InfraGraph.Proofs.Interpretation.Event

/-!
# Events built at another time

While an event is built, its time is neither looked at nor changed: not by the code under its
properties, and not by what is done with what they hold. Read at another time, a definition stands
for the same event, made at that time, or is refused with the same error.

## Main results

* `commutes_buildEvent` — building does the same to an event made at another time.
* `eventOf_stamped` — by another clock, a definition stands for the same event, made by that clock.
* `addEvent_untimed` — so it adds the same to a graph, but for the time.
-/

namespace InfraGraph.Interpretation

open Block (Surroundings Subject)
open Definition (Property Spanned EventDefinition)
open Effect

variable (timestamp : String)

private theorem commutes_evaluateCode (around : Surroundings) (key : Keyword)
    (source code : String) :
    Commutes (Subject.stamped timestamp) (evaluateCode around key source code) := by
  intro s
  rw [evaluateCode, run_of, run_of]
  exact Block.evaluateText_stamped timestamp around key.text source code s

/-- Looking at properties does the same to an event made at another time. -/
theorem commutes_onEvent {α : Type} {work : Work Subject α}
    (h : Commutes (Subject.stamped timestamp) work) :
    Commutes (Event.stamped timestamp) (onEvent work) := by
  intro e
  have hrun : work.run ⟨none, some (e.stamped timestamp)⟩ =
      ((work.run ⟨none, some e⟩).1, (work.run ⟨none, some e⟩).2.stamped timestamp) :=
    h ⟨none, some e⟩
  show ((work.run ⟨none, some (e.stamped timestamp)⟩).1,
    (work.run ⟨none, some (e.stamped timestamp)⟩).2.event.getD (e.stamped timestamp)) = _
  rw [hrun]
  exact Prod.ext rfl (Option.getD_map _ _ _)

theorem commutes_ofResult {α : Type} (x : Except SemanticError α) :
    Commutes (Event.stamped timestamp) (ofResult x) :=
  related_ofResult (Commutes.compatible _) x

private theorem commutes_addLinks (title : String) (links : List String) :
    Commutes (Event.stamped timestamp) (addLinks title links) := by
  induction links with
  | nil => exact .pure _
  | cons link rest ih =>
      exact (commutes_ofResult timestamp _).bind fun _ =>
        Commutes.bind (.modify fun _ => rfl) fun _ => ih

/-- Building does the same to an event made at another time. -/
theorem commutes_buildEvent (around : Surroundings) (layers : Layers) :
    Commutes (Event.stamped timestamp) (buildEvent around layers) := by
  have hQ := Commutes.compatible (ε := SemanticError) (Subject.stamped timestamp)
  have hcode := commutes_evaluateCode timestamp around
  have hlayers (layers : Layers) (key : Keyword) := layers.related_self hQ hcode key
  unfold buildEvent
  refine (commutes_onEvent _ ((hlayers layers .title).stringOr hQ _)).bind fun title => ?_
  have hnamed := hlayers (layers.named title)
  refine Commutes.bind (.modify fun _ => rfl) fun _ => ?_
  refine (commutes_onEvent _ ((hnamed .message).stringOr hQ _)).bind fun message => ?_
  refine Commutes.bind (.modify fun _ => rfl) fun _ => ?_
  refine (commutes_onEvent _ ((hnamed .tags).mergeStrings hQ)).bind fun tags => ?_
  refine Commutes.bind (.modify fun _ => rfl) fun _ => ?_
  refine (commutes_onEvent _ ((hnamed .identifiers).mergeStrings hQ)).bind fun identifiers => ?_
  refine Commutes.bind (.modify fun _ => rfl) fun _ => ?_
  refine (commutes_onEvent _ ((hnamed .links).mergeStrings hQ)).bind fun links => ?_
  refine (commutes_addLinks timestamp title links).bind fun _ => ?_
  refine (commutes_onEvent _ ((hnamed .previous).mergeMap hQ)).bind fun previous => ?_
  refine (commutes_onEvent _ ((hnamed .current).mergeMap hQ)).bind fun current => ?_
  refine Commutes.bind (.modify fun _ => rfl) fun _ => ?_
  refine (commutes_onEvent _
    (Layers.related_runProcessors hQ hcode _ .processor .eventProcessor)).bind fun _ => ?_
  refine .get_bind (fun _ => rfl) fun e => ?_
  have hresolved : Commutes (Event.stamped timestamp) (do
      let resolved ← ofResult (around.graph.resolveIdentifiers (← get).identifiers)
      modify fun e => { e with identifiers := resolved }) :=
    .get_bind (fun _ => rfl) fun e =>
      (commutes_ofResult timestamp _).bind fun _ => .modify fun _ => rfl
  dsimp only
  split
  · exact Commutes.bind (.throw _) fun _ => hresolved
  · exact hresolved

/-- By another clock, a definition stands for the same event, made by that clock. -/
theorem eventOf_stamped (clock other : Clock) (defaults : Option (List (Spanned Property)))
    (d : EventDefinition) (g : Graph) : eventOf other defaults d g =
      (eventOf clock defaults d g).map (Event.stamped (other g.events.length)) := by
  have hbuild := commutes_buildEvent (other g.events.length) ⟨g, 0⟩
    ((Layers.of d.properties defaults d.kind.node.text).withDefaultKeys eventDefaultKeys)
    (Event.blank (typeOf d.kind.node).1 (typeOf d.kind.node).2 (clock g.events.length))
  rw [Event.blank_stamped] at hbuild
  unfold eventOf
  dsimp only
  rw [hbuild]
  generalize (buildEvent ⟨g, 0⟩ _).run _ = r
  rcases r with ⟨e | a, f⟩ <;> rfl

/-- By another clock, a definition adds the same event but for its time, or none for the same
error. -/
theorem addEvent_untimed (clock other : Clock) (defaults : Option (List (Spanned Property)))
    (d : EventDefinition) (g : Graph) :
    ((addEvent clock defaults d).run g).1 = ((addEvent other defaults d).run g).1 ∧
      ((addEvent clock defaults d).run g).2.untimed =
        ((addEvent other defaults d).run g).2.untimed := by
  rw [run_addEvent, run_addEvent, eventOf_stamped clock other]
  cases eventOf clock defaults d g with
  | error e => exact ⟨rfl, rfl⟩
  | ok e =>
      refine ⟨rfl, ?_⟩
      dsimp only [Except.map]
      rw [Graph.untimed_addEvent, Graph.untimed_addEvent, Event.untimed_stamped]

end InfraGraph.Interpretation
