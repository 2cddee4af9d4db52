import InfraGraph.Proofs.Block.Resolution
import InfraGraph.Proofs.Graph.Timestamps

/-!
# What a code block sees of the time

A code block can ask for much of the event that is being built, but not for the time at which it was
made, and no method of an event changes it. So a block does the same to an event made at any other
time, whether it gives a value or fails.

## Main results

* `eventMethod_stamped` — a method does the same to an event made at another time.
* `evaluateText_stamped` — so does the text of a whole block.
-/

namespace InfraGraph.Block

open Effect

/-- A method does the same to an event made at another time. -/
theorem eventMethod_stamped (timestamp : String) (e : Event) (method : String)
    (args : List Value) : eventMethod (e.stamped timestamp) method args =
      (eventMethod e method args).map fun r => (r.1, r.2.stamped timestamp) := by
  unfold eventMethod
  split
  · cases oneText "add_tag" args <;> rfl
  · cases oneText "add_identifier" args with
    | error cause => rfl
    | ok identifier =>
        exact congrArg (fun f => Except.ok (Value.null, f))
          (e.addIdentifier_stamped timestamp identifier)
  · cases keyAndValue "set_data" args <;> rfl
  · rfl

/-- The subject with its event made at another time. -/
def Subject.stamped (timestamp : String) (s : Subject) : Subject :=
  { s with event := s.event.map (Event.stamped timestamp) }

/-- The frame with the event of its subject made at another time. -/
def Frame.stamped (timestamp : String) (f : Frame) : Frame :=
  { f with subject := f.subject.stamped timestamp }

section Steps

variable (timestamp : String)

/-- No name stands for the time of the event. -/
theorem bound_stamped (around : Surroundings) (s : Subject) (name : String) :
    bound around (s.stamped timestamp) name = bound around s name := by
  unfold bound
  split
  case h_3 =>
    show Except.ok (((s.event.map (Event.stamped timestamp)).map Event.toValue).getD .null) = _
    rw [Option.map_map]
    rfl
  all_goals rfl

private theorem run_onEvent (method : String) (args : List Value) (f : Frame) :
    (Step.onEvent method args).run f =
      match f.subject.event with
      | none => (.error (.unbound "event"), f)
      | some e =>
        match eventMethod e method args with
        | .error cause => (.error cause, f)
        | .ok (value, after) => (.ok value, { f with subject.event := some after }) := by
  unfold Step.onEvent
  rw [run_bind, run_get]
  dsimp only
  cases f.subject.event with
  | none => rfl
  | some e =>
      dsimp only
      rw [run_bind]
      cases eventMethod e method args <;> rfl

private theorem commutes_onEvent (method : String) (args : List Value) :
    Commutes (Frame.stamped timestamp) (Step.onEvent method args) := by
  intro f
  rw [run_onEvent, run_onEvent]
  show (match f.subject.event.map (Event.stamped timestamp) with
    | none => _
    | some e => _) = _
  cases f.subject.event with
  | none => rfl
  | some e =>
      dsimp only [Option.map_some]
      rw [eventMethod_stamped]
      cases eventMethod e method args <;> rfl

/-- The methods of a component have nothing to do with the event. -/
theorem commutes_onComponent (method : String) (args : List Value) :
    Commutes (Frame.stamped timestamp) (Step.onComponent method args) := by
  refine .get_bind (fun _ => rfl) fun f => ?_
  split
  · exact .throw _
  · rename_i c _
    have hresult := related_ofResult (Commutes.compatible (Frame.stamped timestamp))
      (componentMethod c method args)
    exact hresult.bind fun _ => Commutes.bind (.modify fun _ => rfl) fun _ => .pure _

private theorem frameSteps_commute (around : Surroundings) :
    FrameSteps (fun _ w _ => Commutes (Frame.stamped timestamp) w) around where
  local? _ := .get_bind (fun _ => rfl) fun _ => .pure _
  bound name := by
    refine .get_bind (fun f => ?_) fun f => ?_
    · exact congrArg Step.ofResult (bound_stamped timestamp around f.subject name)
    · exact related_ofResult (Commutes.compatible _) _
  component := commutes_onComponent timestamp
  event := commutes_onEvent timestamp

end Steps

/-- A block does the same to an event made at another time. -/
theorem outcome_stamped (timestamp : String) (around : Surroundings) (block : Block)
    (subject : Subject) : outcome around block (subject.stamped timestamp) =
      ((outcome around block subject).1, (outcome around block subject).2.stamped timestamp) := by
  have hcommutes := Commutes.compatible (ε := EvalError) (Frame.stamped timestamp)
  have hrun := related_run hcommutes ((frameSteps_commute timestamp around).related hcommutes)
    (fun _ _ _ => .modify fun _ => rfl) block .null ⟨[], subject⟩
  exact congrArg (fun r => (r.1, r.2.subject)) hrun

/-- The text of a block does the same to an event made at another time. -/
theorem evaluateText_stamped (timestamp : String) (around : Surroundings)
    (property element code : String) (subject : Subject) :
    evaluateText around property element code (subject.stamped timestamp) =
      ((evaluateText around property element code subject).1,
        (evaluateText around property element code subject).2.stamped timestamp) := by
  unfold evaluateText
  dsimp only
  split
  · rfl
  · rw [outcome_stamped]

end InfraGraph.Block
