import InfraGraph.Proofs.Block.Decoration
import InfraGraph.Proofs.Block.Resolution
import Mathlib.Logic.Relation

/-!
# What names always mean

The names of what a code block sees cannot be assigned to, and nothing but an assignment adds local
names. So none of these names is ever a local one, at whatever point of an evaluation, and it makes
no difference whether local names are looked at before them or after them.

## Main results

* `Part.sameLocals` — an expression is evaluated with the same local names as the one it is part of.
* `unshadowed_of_passes` — the frames that an evaluation passes through.
* `coincides_bindingsFirst` — in such frames it does not matter what is looked at first.
* `bindings_unshadowed` — so the evaluation that looks at local names last is the same.
-/

namespace InfraGraph.Block

open Effect Step

/-- No local name hides what the block sees. -/
def Frame.Unshadowed (f : Frame) : Prop := ∀ name ∈ bindings, Entries.get? f.locals name = none

/-! ## Points of an evaluation -/

/-- The second operand of an operator is evaluated where the first one has this value. -/
def BinaryOp.GoesOn (op : BinaryOp) (v : Value) : Prop :=
  (op = .and → v.truthy = true) ∧ (op = .or → v.truthy = false)

section Points

variable (around : Surroundings)

/-- The evaluation of an expression from a frame comes to that of one of its parts from another
frame, after the parts before it have been evaluated. -/
inductive Part : Expr × Frame → Expr × Frame → Prop where
  | item {before after : List Expr} {e : Expr} {vs : List Value} {f g : Frame}
    (h : (evaluateItems around before).run f = (.ok vs, g)) :
    Part (.list (before ++ e :: after), f) (e, g)
  | entry {before after : List (String × Expr)} {key : String} {e : Expr} {done : Entries Value}
    {f g : Frame} (h : (evaluateEntries around [] before).run f = (.ok done, g)) :
    Part (.map (before ++ (key, e) :: after), f) (e, g)
  | operand {op : UnaryOp} {e : Expr} {f : Frame} : Part (.unary op e, f) (e, f)
  | left {op : BinaryOp} {left right : Expr} {f : Frame} :
    Part (.binary op left right, f) (left, f)
  | right {op : BinaryOp} {left right : Expr} {v : Value} {f g : Frame}
    (h : (evaluate around left).run f = (.ok v, g)) (hon : op.GoesOn v) :
    Part (.binary op left right, f) (right, g)
  | condition {condition yes no : Expr} {f : Frame} :
    Part (.conditional condition yes no, f) (condition, f)
  | yes {condition yes no : Expr} {v : Value} {f g : Frame}
    (h : (evaluate around condition).run f = (.ok v, g)) (hv : v.truthy = true) :
    Part (.conditional condition yes no, f) (yes, g)
  | no {condition yes no : Expr} {v : Value} {f g : Frame}
    (h : (evaluate around condition).run f = (.ok v, g)) (hv : v.truthy = false) :
    Part (.conditional condition yes no, f) (no, g)
  | base {base : Expr} {text : String} {f : Frame} : Part (.field base text, f) (base, f)
  | container {base place : Expr} {f : Frame} : Part (.index base place, f) (base, f)
  | place {base place : Expr} {v : Value} {f g : Frame}
    (h : (evaluate around base).run f = (.ok v, g)) : Part (.index base place, f) (place, g)
  | argument {callee : Expr} {before after : List Expr} {e : Expr} {vs : List Value} {f g : Frame}
    (h : (evaluateItems around before).run f = (.ok vs, g)) :
    Part (.call callee (before ++ e :: after), f) (e, g)
  | receiver {receiver : Expr} {method : String} {args : List Expr} {vs : List Value} {f g : Frame}
    (h : (evaluateItems around args).run f = (.ok vs, g)) :
    Part (.call (.field receiver method) args, f) (receiver, g)

/-- A statement evaluates an expression. An assignment to what the block sees is refused before. -/
inductive Statement.Evaluates : Statement → Expr → Prop where
  | assign {name : String} {e : Expr} (h : name ∉ bindings) : Evaluates (.assign name e) e
  | expr {e : Expr} : Evaluates (.expr e) e

/-- The frames that the evaluation of a block passes through: those between its statements, and
those in which the evaluation of an expression in it, or of a part of one, begins and ends. -/
inductive Passes (block : Block) (subject : Subject) : Frame → Prop where
  | between {before after : Block} {last : Value} {f : Frame} (hsplit : block = before ++ after)
    (hrun : (run around .null before).run ⟨[], subject⟩ = (.ok last, f)) : Passes block subject f
  | begins {before after : Block} {s : Statement} {last : Value} {e part : Expr} {f g : Frame}
    (hsplit : block = before ++ s :: after)
    (hrun : (run around .null before).run ⟨[], subject⟩ = (.ok last, f)) (hs : s.Evaluates e)
    (hpart : Relation.ReflTransGen (Part around) (e, f) (part, g)) : Passes block subject g
  | ends {before after : Block} {s : Statement} {last : Value} {e part : Expr} {f g : Frame}
    (hsplit : block = before ++ s :: after)
    (hrun : (run around .null before).run ⟨[], subject⟩ = (.ok last, f)) (hs : s.Evaluates e)
    (hpart : Relation.ReflTransGen (Part around) (e, f) (part, g)) :
    Passes block subject ((evaluate around part).run g).2

end Points

/-! ## Local names -/

/-- The frames have the same local names, with the same values. -/
def Frame.SameLocals (f g : Frame) : Prop := g.locals = f.locals

instance : IsPreorder Frame Frame.SameLocals where
  refl _ := rfl
  trans _ _ _ h k := Eq.trans k h

/-- Frames with the same locals shadow the same bindings. -/
theorem Frame.SameLocals.unshadowed {f g : Frame} (h : f.SameLocals g) (hf : f.Unshadowed) :
    g.Unshadowed := by
  intro name hname
  rw [h]
  exact hf name hname

/-- No method changes the locals. -/
theorem keptByMethods_sameLocals : KeptByMethods Frame.SameLocals where
  component method args := by
    refine Keeps.get_bind fun f => ?_
    split
    · rfl
    · rw [run_bind]
      cases componentMethod _ method args <;> rfl
  event method args := by
    refine Keeps.get_bind fun f => ?_
    split
    · rfl
    · rw [run_bind]
      cases eventMethod _ method args <;> rfl

section Locals

variable {around : Surroundings} {f g : Frame}

private theorem sameLocals_of_evaluate {e : Expr} {r : Except EvalError Value}
    (h : (evaluate around e).run f = (r, g)) : f.SameLocals g :=
  (keeps_evaluate keptByMethods_sameLocals around e).of_run h

private theorem sameLocals_of_evaluateItems {es : List Expr} {r : Except EvalError (List Value)}
    (h : (evaluateItems around es).run f = (r, g)) : f.SameLocals g :=
  (related_evaluateItems (Keeps.compatible Frame.SameLocals)
    (keptByMethods_sameLocals.related around) es).of_run h

private theorem sameLocals_of_evaluateEntries {done : Entries Value} {es : List (String × Expr)}
    {r : Except EvalError (Entries Value)} (h : (evaluateEntries around done es).run f = (r, g)) :
    f.SameLocals g :=
  (related_evaluateEntries (Keeps.compatible Frame.SameLocals)
    (keptByMethods_sameLocals.related around) done es).of_run h

/-- The parts of an expression are evaluated with its locals. -/
theorem Part.sameLocals {p q : Expr × Frame} (h : Part around p q) : p.2.SameLocals q.2 := by
  cases h with
  | item h | argument h | receiver h => exact sameLocals_of_evaluateItems h
  | entry h => exact sameLocals_of_evaluateEntries h
  | right h _ | yes h _ | no h _ | place h => exact sameLocals_of_evaluate h
  | operand | left | condition | base | container => rfl

private theorem sameLocals_of_parts {p q : Expr × Frame}
    (h : Relation.ReflTransGen (Part around) p q) :
    p.2.SameLocals q.2 := by
  induction h with
  | refl => rfl
  | tail _ hpart ih => exact trans_of Frame.SameLocals ih hpart.sameLocals

end Locals

/-! ## Names resolved the other way round -/

/-- The resolution for which what the block sees comes before all local names. -/
def bindingsFirst (around : Surroundings) : Resolution where
  value name :=
    if bindings.contains name then do ofResult (bound around (← get).subject name)
    else lookup around name
  method name method args :=
    match name with
    | "graph" => ofResult (graphMethod around.graph method args)
    | "component" => onComponent method args
    | "event" => onEvent method args
    | "repeat_index" => ofResult (callMethod (.int around.repetition) method args)
    | _ => callOnName around name method args
  function name args :=
    if bindings.contains name then ofResult (callFunction name args) else callName name args

section BindingsFirst

variable (around : Surroundings)

/-- Steps with the same runs from unshadowed frames, which keep the local names, do the same. -/
theorem coincides_of_run {α : Type} {v w : Step α} (hv : Keeps Frame.SameLocals v)
    (h : ∀ f : Frame, f.Unshadowed → v.run f = w.run f) : Coincides Frame.Unshadowed v w :=
  fun f hf => ⟨h f hf, (hv f).unshadowed hf⟩

section Runs

variable {f : Frame} (hf : f.Unshadowed) {name : String} (hname : name ∈ bindings)

include hf hname

theorem run_local?_of_unshadowed : (local? name).run f = (.ok none, f) := by
  rw [← hf name hname]
  rfl

private theorem run_lookup_of_unshadowed :
    (lookup around name).run f = (ofResult (bound around f.subject name)).run f := by
  rw [lookup, run_bind, run_local?_of_unshadowed hf hname]
  rfl

private theorem run_callName_of_unshadowed (args : List Value) :
    (callName name args).run f = (ofResult (callFunction name args)).run f := by
  rw [callName, run_bind, run_local?_of_unshadowed hf hname]

end Runs

/-- Where no local name hides what the block sees, it does not matter what is looked at first. -/
theorem coincides_bindingsFirst :
    (localsFirst around).Related (fun _ => Coincides Frame.Unshadowed) (bindingsFirst around) where
  value name := by
    refine coincides_of_run ((keptByMethods_sameLocals.related around).value name) fun f hf => ?_
    dsimp only [localsFirst, bindingsFirst]
    split
    · rename_i hname
      rw [run_lookup_of_unshadowed around hf (List.contains_iff_mem.1 hname)]
      rfl
    · rfl
  method name method args := by
    refine coincides_of_run ((keptByMethods_sameLocals.related around).method name method args)
      fun f hf => ?_
    dsimp only [localsFirst, bindingsFirst]
    split
    case h_1 | h_2 | h_3 =>
      rw [callOnName, run_bind, run_local?_of_unshadowed hf (by decide)]
    case h_4 =>
      unfold callOnName
      rw [run_bind, run_local?_of_unshadowed hf (by decide)]
      show (lookup around "repeat_index" >>= fun v => ofResult (callMethod v method args)).run f = _
      rw [run_bind, run_lookup_of_unshadowed around hf (by decide)]
      rfl
    case h_5 => rfl
  function name args := by
    refine coincides_of_run ((keptByMethods_sameLocals.related around).function name args)
      fun f hf => ?_
    dsimp only [localsFirst, bindingsFirst]
    split
    · rename_i hname
      rw [run_callName_of_unshadowed hf (List.contains_iff_mem.1 hname)]
    · rfl

/-! ## Blocks -/

/-- An assignment that is not refused hides nothing. -/
theorem coincides_assign {name : String} (h : name ∉ bindings) (value : Value) :
    Coincides Frame.Unshadowed (assign name value) (assign name value) := by
  refine fun f hf => ⟨rfl, fun other hother => ?_⟩
  have hne : name ≠ other := fun heq => h (heq ▸ hother)
  show Entries.get? (Entries.insert f.locals name value) other = none
  rw [Entries.get?_insert, if_neg hne]
  exact hf other hother

/-- A block does the same whatever is looked at first, and hides nothing. -/
theorem coincides_runWith (block : Block) (last : Value) :
    Coincides Frame.Unshadowed (runWith (localsFirst around) last block)
      (runWith (bindingsFirst around) last block) :=
  related_runWith (Coincides.compatible Frame.Unshadowed) (coincides_bindingsFirst around)
    (fun _ value h => coincides_assign h value) block last

end BindingsFirst

/-! ## What a block sees -/

/-- No binding is shadowed before a block runs. -/
theorem unshadowed_start (subject : Subject) : Frame.Unshadowed ⟨[], subject⟩ := fun _ _ => rfl

private theorem unshadowed_of_run {around : Surroundings} {block : Block} {subject : Subject}
    {last : Value} {f : Frame} (h : (run around .null block).run ⟨[], subject⟩ = (.ok last, f)) :
    f.Unshadowed := by
  rw [← runWith_localsFirst] at h
  exact (coincides_runWith around block .null).holds (unshadowed_start subject) h

/-- No binding is shadowed at any point that the evaluation of a block passes. -/
theorem unshadowed_of_passes {around : Surroundings} {block : Block} {subject : Subject} {f : Frame}
    (h : Passes around block subject f) : f.Unshadowed := by
  cases h with
  | between _ hrun => exact unshadowed_of_run hrun
  | begins _ hrun _ hpart => exact (sameLocals_of_parts hpart).unshadowed (unshadowed_of_run hrun)
  | @ends _ _ _ _ _ part _ g _ hrun _ hpart =>
      have hg : g.Unshadowed := (sameLocals_of_parts hpart).unshadowed (unshadowed_of_run hrun)
      exact (keeps_evaluate keptByMethods_sameLocals around part g).unshadowed hg

/-- At no point of its evaluation has a block a local name that stands for what it sees. So looking
at local names last gives the same value or the same error, and the same component and event. -/
theorem bindings_unshadowed (around : Surroundings) (block : Block) (subject : Subject) :
    (∀ f, Passes around block subject f →
      ∀ name ∈ ["graph", "component", "event", "repeat_index"],
        Entries.get? f.locals name = none) ∧
    outcomeWith (bindingsFirst around) block subject = outcome around block subject := by
  refine ⟨fun f hf => unshadowed_of_passes hf, ?_⟩
  obtain ⟨hrun, -⟩ := coincides_runWith around block .null ⟨[], subject⟩ (unshadowed_start subject)
  rw [← outcomeWith_localsFirst, outcomeWith, outcomeWith, hrun]

end InfraGraph.Block
