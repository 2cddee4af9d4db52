import InfraGraph.Proofs.Block.Resolution
import InfraGraph.Proofs.Graph.Decoration
import Mathlib.Data.Option.Defs

/-!
# What a code block can touch

Whatever a code block does, and wherever it fails, it leaves its subject decorated: it gives back
the component or the event that it was given, and what was listed in it is still listed there
first. Only two steps of an evaluation change the subject at all, the methods of the component and
those of the event, so that the rest is an induction over expressions.

## Main results

* `componentMethod_decorated`, `eventMethod_decorated` — what the methods do.
* `keeps_evaluate` — an expression keeps what the methods of the subject keep, at every point at
  which it may fail.
* `outcome_decorated` — so a whole block decorates, with a value or with an error.
-/

namespace InfraGraph.Block

open Effect

/-! ## Methods -/

section Methods

variable {ε α β : Type}

theorem exists_of_bind_eq_ok {x : Except ε α} {f : α → Except ε β} {b : β}
    (h : (x >>= f) = .ok b) : ∃ a, x = .ok a ∧ f a = .ok b := by
  cases x with
  | error e => cases h
  | ok a => exact ⟨a, rfl, h⟩

/-- Every method of a component looks at its arguments first and then decorates
the component or leaves it alone. -/
theorem componentMethod_decorated {c d : Component} {method : String}
    {args : List Value} {value : Value}
    (h : componentMethod c method args = .ok (value, d)) : c.Decorated d := by
  unfold componentMethod at h
  split at h
  case h_1 =>
    obtain ⟨label, _, hd⟩ := exists_of_bind_eq_ok h
    cases hd
    exact c.decorated_addLabel label
  case h_2 =>
    obtain ⟨⟨key, value⟩, _, hd⟩ := exists_of_bind_eq_ok h
    cases hd
    exact c.decorated_addLabel _
  case h_3 =>
    obtain ⟨identifier, _, hd⟩ := exists_of_bind_eq_ok h
    cases hd
    exact c.decorated_addIdentifier identifier
  case h_4 =>
    obtain ⟨⟨key, value⟩, _, hd⟩ := exists_of_bind_eq_ok h
    cases hd
    exact c.decorated_setProperty key value
  case h_5 | h_6 =>
    obtain ⟨_, _, hd⟩ := exists_of_bind_eq_ok h
    cases hd
    exact .refl c
  case h_7 | h_8 | h_9 =>
    obtain ⟨_, _, hd⟩ := exists_of_bind_eq_ok h
    cases hd
    exact c.decorated_classify _ _ _
  case h_10 => cases h

/-- Methods only decorate an event. -/
theorem eventMethod_decorated {e f : Event} {method : String}
    {args : List Value} {value : Value}
    (h : eventMethod e method args = .ok (value, f)) : e.Decorated f := by
  unfold eventMethod at h
  split at h
  case h_1 =>
    obtain ⟨tag, _, hf⟩ := exists_of_bind_eq_ok h
    cases hf
    exact e.decorated_addTag tag
  case h_2 =>
    obtain ⟨identifier, _, hf⟩ := exists_of_bind_eq_ok h
    cases hf
    exact e.decorated_addIdentifier identifier
  case h_3 =>
    obtain ⟨⟨key, value⟩, _, hf⟩ := exists_of_bind_eq_ok h
    cases hf
    exact e.decorated_setData key value
  case h_4 => cases h

end Methods

/-! ## Subjects and frames -/

/-- The second subject is the first one with decorations. -/
structure Subject.Decorated (s t : Subject) : Prop where
  component : Option.Rel Component.Decorated s.component t.component
  event : Option.Rel Event.Decorated s.event t.event

private theorem rel_refl {α : Type} {R : α → α → Prop} [IsPreorder α R] :
    ∀ a : Option α, Option.Rel R a a
  | none => .none
  | some a => .some (refl_of R a)

private theorem rel_trans {α : Type} {R : α → α → Prop} [IsPreorder α R]
    {a b c : Option α} (h : Option.Rel R a b) (k : Option.Rel R b c) :
    Option.Rel R a c := by
  cases h with
  | none => exact k
  | some h =>
      cases k with
      | some k => exact .some (trans_of R h k)

instance : IsPreorder Subject Subject.Decorated where
  refl _ := ⟨rel_refl _, rel_refl _⟩
  trans _ _ _ h k :=
    ⟨rel_trans h.component k.component, rel_trans h.event k.event⟩

/-- The subject of the second frame is that of the first one with
decorations. -/
def Frame.Decorated (f g : Frame) : Prop := f.subject.Decorated g.subject

instance : IsPreorder Frame Frame.Decorated where
  refl _ := refl_of Subject.Decorated _
  trans _ _ _ h k := trans_of Subject.Decorated h k

/-! ## Steps -/

section Steps

variable {R : Frame → Frame → Prop} [IsPreorder Frame R]

/-- The methods of the component and those of the event keep a relation. No other steps of an
expression change the frame. -/
structure KeptByMethods (R : Frame → Frame → Prop) : Prop where
  component : ∀ method args, Keeps R (Step.onComponent method args)
  event : ∀ method args, Keeps R (Step.onEvent method args)

/-- What the methods keep, all steps on names keep. -/
theorem KeptByMethods.related (h : KeptByMethods R) (around : Surroundings) :
    (localsFirst around).Related (fun _ w _ => Keeps R w) (localsFirst around) := by
  have hresult : ∀ x : Except EvalError Value, Keeps R (Step.ofResult x) :=
    related_ofResult (Keeps.compatible R)
  refine FrameSteps.related (Keeps.compatible R) ⟨?_, ?_, h.component, h.event⟩
  · exact fun name => .bind .get fun _ => .pure _
  · exact fun name => .bind .get fun _ => hresult _

/-- An expression keeps what the methods of the subject keep, also where it fails. -/
theorem keeps_evaluate (h : KeptByMethods R) (around : Surroundings) (e : Expr) :
    Keeps R (evaluate around e) :=
  related_evaluate (Keeps.compatible R) (h.related around) e

end Steps

/-! ## Decorations -/

private theorem keeps_assign (name : String) (value : Value) :
    Keeps Frame.Decorated (Step.assign name value) :=
  fun f => refl_of Subject.Decorated f.subject

private theorem keeps_onComponent (method : String) (args : List Value) :
    Keeps Frame.Decorated (Step.onComponent method args) := by
  refine Keeps.get_bind fun f => ?_
  split
  · exact refl_of Frame.Decorated f
  · rename_i c hc
    rw [run_bind]
    cases hmethod : componentMethod c method args with
    | error e => exact refl_of Frame.Decorated f
    | ok result =>
        obtain ⟨value, after⟩ := result
        have hafter := componentMethod_decorated hmethod
        show Subject.Decorated f.subject { f.subject with component := some after }
        exact ⟨by rw [hc]; exact .some hafter, rel_refl _⟩

private theorem keeps_onEvent (method : String) (args : List Value) :
    Keeps Frame.Decorated (Step.onEvent method args) := by
  refine Keeps.get_bind fun f => ?_
  split
  · exact refl_of Frame.Decorated f
  · rename_i e he
    rw [run_bind]
    cases hmethod : eventMethod e method args with
    | error cause => exact refl_of Frame.Decorated f
    | ok result =>
        obtain ⟨value, after⟩ := result
        have hafter := eventMethod_decorated hmethod
        show Subject.Decorated f.subject { f.subject with event := some after }
        exact ⟨rel_refl _, by rw [he]; exact .some hafter⟩

private theorem keptByMethods_decorated : KeptByMethods Frame.Decorated :=
  ⟨keeps_onComponent, keeps_onEvent⟩

/-! ## Blocks -/

/-- Running a block only decorates the subject. -/
theorem keeps_run (around : Surroundings) (block : Block) (last : Value) :
    Keeps Frame.Decorated (run around last block) :=
  related_run (Keeps.compatible Frame.Decorated) (keptByMethods_decorated.related around)
    (fun name value _ => keeps_assign name value) block last

/-- The text of a code block does nothing to the subject but what its block does. -/
theorem evaluateText_decorated (around : Surroundings)
    (property element code : String) (subject : Subject) :
    subject.Decorated (evaluateText around property element code subject).2 := by
  unfold evaluateText
  dsimp only
  split
  · exact refl_of Subject.Decorated subject
  · rename_i block _
    exact keeps_run around block .null ⟨[], subject⟩

/-- A block leaves its subject decorated, whether it gives a value or fails: the component and the
event are still those that it was given, with more at the end of what they list. -/
theorem outcome_decorated (around : Surroundings) (block : Block)
    (subject : Subject) :
    subject.Decorated (outcome around block subject).2 :=
  keeps_run around block .null ⟨[], subject⟩

end InfraGraph.Block
