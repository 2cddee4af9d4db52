import InfraGraph.Block.Evaluation
import InfraGraph.Proofs.Effect

/-!
# Evaluation with names resolved in another way

An evaluation looks at names in three places: where a name is a value, where it is what a method is
called of, and where it is what is called. Everything else goes on in the same way, however names
are resolved there. So the evaluator is stated once more with these three steps as parameters: with
the steps of the evaluation it is the evaluation, and with steps that are related to these, such as
others that come to the same, the whole evaluation is related to it. A property that the three steps
of the evaluation itself have is one that every expression has.

## Main results

* `evaluateWith_localsFirst`, `outcomeWith_localsFirst` — with its own steps, it is the evaluation.
* `related_evaluateWith`, `related_runWith` — related resolutions make related evaluations.
* `related_evaluate`, `related_run` — what the steps of the evaluation have, it has as a whole.
-/

namespace InfraGraph.Block

open Effect Step

/-- How names are resolved. -/
structure Resolution where
  /-- What a name stands for. -/
  value : String → Step Value
  /-- Calls a method of what a name stands for. -/
  method : String → String → List Value → Step Value
  /-- Calls a function by its name. -/
  function : String → List Value → Step Value

/-- The resolution of the evaluation: a local name comes before all others. -/
def localsFirst (around : Surroundings) : Resolution where
  value := lookup around
  method := callOnName around
  function := callName

mutual

/-- Evaluates an expression with names resolved in a given way. -/
def evaluateWith (r : Resolution) : Expr → Step Value
  | .literal v => return v
  | .name text => r.value text
  | .list items => return .list (← evaluateItemsWith r items)
  | .map entries => return .map (← evaluateEntriesWith r [] entries)
  | .unary op operand => do ofResult (unary op (← evaluateWith r operand))
  | .binary .and left right => do
    if (← evaluateWith r left).truthy then return .bool (← evaluateWith r right).truthy
    else return .bool false
  | .binary .or left right => do
    if (← evaluateWith r left).truthy then return .bool true
    else return .bool (← evaluateWith r right).truthy
  | .binary op left right => do
    let a ← evaluateWith r left
    let b ← evaluateWith r right
    ofResult (binary op a b)
  | .conditional condition yes no => do
    if (← evaluateWith r condition).truthy then evaluateWith r yes else evaluateWith r no
  | .field base text => do ofResult (field (← evaluateWith r base) text)
  | .index base position => do
    let container ← evaluateWith r base
    let index ← evaluateWith r position
    ofResult (subscript container index)
  | .call (.field (.name text) method) args => do
    r.method text method (← evaluateItemsWith r args)
  | .call (.field receiver method) args => do
    let values ← evaluateItemsWith r args
    ofResult (callMethod (← evaluateWith r receiver) method values)
  | .call (.name text) args => do r.function text (← evaluateItemsWith r args)
  | .call _ args => do
    let _ ← evaluateItemsWith r args
    throw .notCallable

/-- Evaluates expressions in order. -/
def evaluateItemsWith (r : Resolution) : List Expr → Step (List Value)
  | [] => return []
  | e :: rest => do
    let v ← evaluateWith r e
    return v :: (← evaluateItemsWith r rest)

/-- Evaluates the entries of a map in order and writes them into a map. -/
def evaluateEntriesWith (r : Resolution) (done : Entries Value) :
    List (String × Expr) → Step (Entries Value)
  | [] => return done
  | (key, e) :: rest => do
    let v ← evaluateWith r e
    evaluateEntriesWith r (Entries.insert done key v) rest

end

/-- Runs a statement; its value is that of an expression, and null after an assignment. -/
def runStatementWith (r : Resolution) : Statement → Step Value
  | .assign name e => do
    if bindings.contains name then throw (.readOnly name)
    assign name (← evaluateWith r e)
    return .null
  | .expr e => evaluateWith r e

/-- Runs statements in order; the last one gives the value. -/
def runWith (r : Resolution) (last : Value) : Block → Step Value
  | [] => return last
  | s :: rest => do runWith r (← runStatementWith r s) rest

/-- Evaluates a block on a subject: its value or the error, and the subject after it. -/
def outcomeWith (r : Resolution) (block : Block) (subject : Subject) :
    Except EvalError Value × Subject :=
  let (result, frame) := (runWith r .null block).run ⟨[], subject⟩
  (result, frame.subject)

/-! ## The evaluation itself -/

section LocalsFirst

variable (around : Surroundings)

mutual

/-- Resolving locals first is how expressions are evaluated. -/
theorem evaluateWith_localsFirst :
    ∀ e : Expr, evaluateWith (localsFirst around) e = evaluate around e
  | .literal _ => rfl
  | .name _ => rfl
  | .list items => by rw [evaluateWith, evaluate, evaluateItemsWith_localsFirst items]
  | .map entries => by rw [evaluateWith, evaluate, evaluateEntriesWith_localsFirst [] entries]
  | .unary op operand => by rw [evaluateWith, evaluate, evaluateWith_localsFirst operand]
  | .binary op left right => by
      have hleft := evaluateWith_localsFirst left
      have hright := evaluateWith_localsFirst right
      cases op <;> simp only [evaluateWith, evaluate, hleft, hright]
  | .conditional condition yes no => by
      rw [evaluateWith, evaluate, evaluateWith_localsFirst condition,
        evaluateWith_localsFirst yes, evaluateWith_localsFirst no]
  | .field base _ => by rw [evaluateWith, evaluate, evaluateWith_localsFirst base]
  | .index base place => by
      rw [evaluateWith, evaluate, evaluateWith_localsFirst base, evaluateWith_localsFirst place]
  | .call callee args => by
      have hargs := evaluateItemsWith_localsFirst args
      cases callee with
      | field receiver method =>
          have hreceiver := evaluateWith_localsFirst receiver
          cases receiver with
          | name text =>
              rw [evaluateWith, evaluate, hargs]
              rfl
          | _ => rw [evaluateWith, evaluate, hargs, hreceiver] <;> exact fun _ h => nomatch h
      | name text =>
          rw [evaluateWith, evaluate, hargs]
          rfl
      | _ => simp only [evaluateWith, evaluate, hargs]

private theorem evaluateItemsWith_localsFirst :
    ∀ es : List Expr, evaluateItemsWith (localsFirst around) es = evaluateItems around es
  | [] => rfl
  | e :: rest => by
      rw [evaluateItemsWith, evaluateItems, evaluateWith_localsFirst e,
        evaluateItemsWith_localsFirst rest]

private theorem evaluateEntriesWith_localsFirst (done : Entries Value) :
    ∀ es : List (String × Expr),
      evaluateEntriesWith (localsFirst around) done es = evaluateEntries around done es
  | [] => rfl
  | (_, e) :: rest => by
      rw [evaluateEntriesWith, evaluateEntries, evaluateWith_localsFirst e]
      exact bind_congr fun v => evaluateEntriesWith_localsFirst _ rest

end

/-- Resolving locals first is how blocks are run. -/
theorem runWith_localsFirst (block : Block) :
    ∀ last, runWith (localsFirst around) last block = run around last block := by
  induction block with
  | nil => exact fun _ => rfl
  | cons statement rest ih =>
      intro last
      have hstatement : runStatementWith (localsFirst around) statement =
          runStatement around statement := by
        cases statement with
        | assign name e => rw [runStatementWith, runStatement, evaluateWith_localsFirst]
        | expr e => exact evaluateWith_localsFirst around e
      rw [runWith, run, hstatement]
      exact bind_congr ih

/-- Resolving locals first gives the outcome of a block. -/
theorem outcomeWith_localsFirst (block : Block) (subject : Subject) :
    outcomeWith (localsFirst around) block subject = outcome around block subject := by
  have hrun : (runWith (localsFirst around) .null block).run ⟨[], subject⟩ =
      (run around .null block).run ⟨[], subject⟩ := by
    rw [runWith_localsFirst]
  exact congrArg (fun result => (result.1, result.2.subject)) hrun

end LocalsFirst

/-! ## Resolutions that are related -/

/-- The steps of two resolutions are related, for every name. -/
structure Resolution.Related (Q : (α : Type) → Step α → Step α → Prop) (r q : Resolution) :
    Prop where
  value : ∀ name, Q _ (r.value name) (q.value name)
  method : ∀ name method args, Q _ (r.method name method args) (q.method name method args)
  function : ∀ name args, Q _ (r.function name args) (q.function name args)

/-- The four steps of the evaluation that look at a frame or change it are related to themselves. -/
structure FrameSteps (Q : (α : Type) → Step α → Step α → Prop) (around : Surroundings) : Prop where
  local? : ∀ name, Q _ (local? name) (local? name)
  bound : ∀ name, Q _ (do ofResult (bound around (← get).subject name))
    (do ofResult (bound around (← get).subject name))
  component : ∀ method args, Q _ (onComponent method args) (onComponent method args)
  event : ∀ method args, Q _ (onEvent method args) (onEvent method args)

section Related

variable {Q : (α : Type) → Step α → Step α → Prop} (hQ : Compatible Q) {r q : Resolution}

include hQ

/-- What only computes is related to itself. -/
theorem related_ofResult {α : Type} (x : Except EvalError α) :
    Q _ (ofResult x) (ofResult x) := by
  cases x with
  | ok a => exact hQ.pure a
  | error e => exact hQ.throw e

mutual

/-- Related resolutions make related evaluations. -/
theorem related_evaluateWith (h : r.Related Q q) :
    ∀ e : Expr, Q _ (evaluateWith r e) (evaluateWith q e)
  | .literal v => hQ.pure v
  | .name text => h.value text
  | .list items => hQ.bind (related_evaluateItemsWith h items) fun _ => hQ.pure _
  | .map entries => hQ.bind (related_evaluateEntriesWith h [] entries) fun _ => hQ.pure _
  | .unary _ operand =>
      hQ.bind (related_evaluateWith h operand) fun _ => related_ofResult hQ _
  | .binary op left right => by
      have hleft := related_evaluateWith h left
      have hright := related_evaluateWith h right
      cases op with
      | and =>
          refine hQ.bind hleft fun a => ?_
          split
          · exact hQ.bind hright fun _ => hQ.pure _
          · exact hQ.pure _
      | or =>
          refine hQ.bind hleft fun a => ?_
          split
          · exact hQ.pure _
          · exact hQ.bind hright fun _ => hQ.pure _
      | _ => exact hQ.bind hleft fun _ => hQ.bind hright fun _ => related_ofResult hQ _
  | .conditional condition yes no => by
      refine hQ.bind (related_evaluateWith h condition) fun a => ?_
      split
      · exact related_evaluateWith h yes
      · exact related_evaluateWith h no
  | .field base _ => hQ.bind (related_evaluateWith h base) fun _ => related_ofResult hQ _
  | .index base place =>
      hQ.bind (related_evaluateWith h base) fun _ =>
        hQ.bind (related_evaluateWith h place) fun _ => related_ofResult hQ _
  | .call callee args => by
      have hargs := related_evaluateItemsWith h args
      cases callee with
      | name text => exact hQ.bind hargs fun _ => h.function text _
      | field receiver method =>
          have hreceiver := related_evaluateWith h receiver
          cases receiver with
          | name text => exact hQ.bind hargs fun _ => h.method text method _
          | _ => exact hQ.bind hargs fun _ => hQ.bind hreceiver fun _ => related_ofResult hQ _
      | _ => exact hQ.bind hargs fun _ => hQ.throw _

private theorem related_evaluateItemsWith (h : r.Related Q q) :
    ∀ es : List Expr, Q _ (evaluateItemsWith r es) (evaluateItemsWith q es)
  | [] => hQ.pure _
  | e :: rest =>
      hQ.bind (related_evaluateWith h e) fun _ =>
        hQ.bind (related_evaluateItemsWith h rest) fun _ => hQ.pure _

private theorem related_evaluateEntriesWith (h : r.Related Q q) (done : Entries Value) :
    ∀ es : List (String × Expr), Q _ (evaluateEntriesWith r done es) (evaluateEntriesWith q done es)
  | [] => hQ.pure _
  | (_, e) :: rest =>
      hQ.bind (related_evaluateWith h e) fun _ => related_evaluateEntriesWith h _ rest

end

section Statements

variable (h : r.Related Q q)
  (hassign : ∀ name value, name ∉ bindings → Q _ (assign name value) (assign name value))

include h hassign

private theorem related_runStatementWith (statement : Statement) :
    Q _ (runStatementWith r statement) (runStatementWith q statement) := by
  cases statement with
  | expr e => exact related_evaluateWith hQ h e
  | assign name e =>
      dsimp only [runStatementWith]
      split
      · -- it is refused before the expression is evaluated
        exact hQ.throw (.readOnly name)
      · rename_i hname
        exact hQ.bind (related_evaluateWith hQ h e) fun value =>
          hQ.bind (hassign name value (by simpa using hname)) fun _ => hQ.pure _

/-- Related resolutions make related blocks, if assignments are related as well. -/
theorem related_runWith (block : Block) :
    ∀ last, Q _ (runWith r last block) (runWith q last block) := by
  induction block with
  | nil => exact fun last => hQ.pure last
  | cons statement rest ih =>
      exact fun _ => hQ.bind (related_runStatementWith hQ h hassign statement) ih

end Statements

/-! ## The evaluation beside itself -/

/-- Then so are the steps that resolve names. -/
theorem FrameSteps.related {around : Surroundings} (h : FrameSteps Q around) :
    (localsFirst around).Related Q (localsFirst around) := by
  have hvalue : ∀ name, Q _ (lookup around name) (lookup around name) := by
    refine fun name => hQ.bind (h.local? name) fun found => ?_
    cases found with
    | some value => exact hQ.pure value
    | none => exact h.bound name
  refine ⟨hvalue, fun name method args => ?_, fun name args => ?_⟩
  · refine hQ.bind (h.local? name) fun found => ?_
    cases found with
    | some value => exact related_ofResult hQ _
    | none =>
        dsimp only
        split
        · exact related_ofResult hQ _
        · exact h.component method args
        · exact h.event method args
        · exact hQ.bind (hvalue name) fun _ => related_ofResult hQ _
  · refine hQ.bind (h.local? name) fun found => ?_
    cases found with
    | some value => exact hQ.throw _
    | none => exact related_ofResult hQ _

section Itself

variable {around : Surroundings} (h : (localsFirst around).Related Q (localsFirst around))

include h

/-- If the steps on names are related to themselves, so is every evaluation. -/
theorem related_evaluate (e : Expr) : Q _ (evaluate around e) (evaluate around e) := by
  rw [← evaluateWith_localsFirst]
  exact related_evaluateWith hQ h e

theorem related_evaluateItems (es : List Expr) :
    Q _ (evaluateItems around es) (evaluateItems around es) := by
  rw [← evaluateItemsWith_localsFirst]
  exact related_evaluateItemsWith hQ h es

theorem related_evaluateEntries (done : Entries Value) (es : List (String × Expr)) :
    Q _ (evaluateEntries around done es) (evaluateEntries around done es) := by
  rw [← evaluateEntriesWith_localsFirst]
  exact related_evaluateEntriesWith hQ h done es

/-- If assignments are as well, so is every run of a block. -/
theorem related_run
    (hassign : ∀ name value, name ∉ bindings → Q _ (assign name value) (assign name value))
    (block : Block) (last : Value) : Q _ (run around last block) (run around last block) := by
  rw [← runWith_localsFirst]
  exact related_runWith hQ h hassign block last

end Itself

end Related

end InfraGraph.Block
