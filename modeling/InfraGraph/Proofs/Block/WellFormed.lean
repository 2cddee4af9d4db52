import InfraGraph.Proofs.Block.Decoration
import InfraGraph.Proofs.Block.Literals

/-!
# Code blocks make well-formed values

Every map that a code block gives has each key once, at any depth, if this is so for all that the
block sees. Operators, functions and methods give parts of what they are given or make maps by
writing, and so does the evaluation of an expression.

## Main results

* `binary_wellFormed`, `callMethod_wellFormed` and the others like them — what may be applied to
  values.
* `maintains_evaluate` — evaluation, by cases of the expression.
* `evaluateText_wellFormed` — so the value of a text is well-formed, and the subject after it.
-/

namespace InfraGraph.Block

open Effect

/-! ## Results -/

/-- Where there is a result, the property holds of it. -/
def Ensures {ε α : Type} (x : Except ε α) (Q : α → Prop) : Prop := ∀ a, x = .ok a → Q a

namespace Ensures

variable {ε α β : Type} {Q : α → Prop} {T : β → Prop} {x : Except ε α}

theorem ok {a : α} (ha : Q a) : Ensures (.ok a : Except ε α) Q := by
  rintro _ ⟨⟩
  exact ha

theorem error {e : ε} : Ensures (.error e : Except ε α) Q := by
  rintro _ ⟨⟩

/-- What both parts ensure, the sequence ensures. -/
theorem bind {f : α → Except ε β} (hx : Ensures x Q) (hf : ∀ a, Q a → Ensures (f a) T) :
    Ensures (x >>= f) T := by
  intro b hb
  obtain ⟨a, ha, hfa⟩ := exists_of_bind_eq_ok hb
  exact hf a (hx a ha) b hfa

/-- Nothing need be known of what comes first if it does not matter. -/
theorem after {f : α → Except ε β} (hf : ∀ a, Ensures (f a) T) : Ensures (x >>= f) T := by
  have hx : Ensures x fun _ => True := fun _ _ => trivial
  exact hx.bind fun a _ => hf a

end Ensures

/-- The result, if there is one, is a well-formed value. -/
abbrev GivesWellFormed {ε : Type} (x : Except ε Value) : Prop := Ensures x Value.WellFormed

/-! ## Operators -/

private theorem fitting_wellFormed (n : Int) : GivesWellFormed (fitting n) := by
  unfold fitting
  split
  · exact .ok trivial
  · exact .error

private theorem intArithmetic_wellFormed (op : BinaryOp) (a b : Int64) :
    GivesWellFormed (intArithmetic op a b) := by
  unfold intArithmetic
  split
  · exact fitting_wellFormed _
  · exact fitting_wellFormed _
  · exact fitting_wellFormed _
  · split
    · exact .error
    · exact fitting_wellFormed _
  · split
    · exact .error
    · exact .after fun _ => fitting_wellFormed _
  · exact .error

private theorem floatArithmetic_wellFormed (op : BinaryOp) (left right : Value) (a b : Float) :
    GivesWellFormed (floatArithmetic op left right a b) := by
  unfold floatArithmetic
  split
  case h_4 | h_5 =>
    split
    · exact .error
    · exact .ok trivial
  case h_6 => exact .error
  all_goals exact .ok trivial

private theorem arithmetic_wellFormed (op : BinaryOp) {left right : Value} (hleft : left.WellFormed)
    (hright : right.WellFormed) : GivesWellFormed (arithmetic op left right) := by
  unfold arithmetic
  split
  · exact intArithmetic_wellFormed op _ _
  · exact floatArithmetic_wellFormed op _ _ _ _
  · exact floatArithmetic_wellFormed op _ _ _ _
  · exact floatArithmetic_wellFormed op _ _ _ _
  · split
    · exact .ok trivial
    · exact .error
  · split
    · refine .ok (Value.wellFormed_list.2 fun v hv => ?_)
      rcases List.mem_append.1 hv with hv | hv
      · exact Value.wellFormed_list.1 hleft v hv
      · exact Value.wellFormed_list.1 hright v hv
    · exact .error
  · exact .error

private theorem comparison_wellFormed (op : BinaryOp) (left right : Value) :
    GivesWellFormed (comparison op left right) := by
  refine .after fun o => ?_
  split
  · exact .ok trivial
  · exact .ok trivial

/-- A binary operator makes well-formed values of such ones. -/
theorem binary_wellFormed (op : BinaryOp) {left right : Value} (hleft : left.WellFormed)
    (hright : right.WellFormed) : GivesWellFormed (binary op left right) := by
  unfold binary
  split
  · exact .ok trivial
  · exact .ok trivial
  case h_7 => exact arithmetic_wellFormed op hleft hright
  all_goals exact comparison_wellFormed _ left right

private theorem unary_wellFormed (op : UnaryOp) (value : Value) :
    GivesWellFormed (unary op value) := by
  unfold unary
  split
  · exact .ok trivial
  · exact fitting_wellFormed _
  · exact .ok trivial
  · exact .error

/-! ## Parts of values -/

private theorem subscript_wellFormed {container : Value} (h : container.WellFormed)
    (index : Value) :
    GivesWellFormed (subscript container index) := by
  unfold subscript
  split
  · rename_i items _
    refine .after fun i => .ok ?_
    rw [List.getD_eq_getElem?_getD]
    cases hv : items[i]? with
    | none => trivial
    | some v => exact Value.wellFormed_list.1 h v (List.mem_of_getElem? hv)
  · exact .after fun _ => .ok trivial
  · split
    · rename_i hv
      exact .ok (Value.wellFormed_of_get? h hv)
    · exact .error
  · exact .error

private theorem field_wellFormed {value : Value} (h : value.WellFormed) (name : String) :
    GivesWellFormed (field value name) := by
  unfold field
  split
  · split
    · rename_i hv
      exact .ok (Value.wellFormed_of_get? h hv)
    · exact .error
  · exact .error

/-! ## Functions and methods -/

private theorem toInteger_wellFormed (value : Value) : GivesWellFormed (toInteger value) := by
  unfold toInteger
  split
  · exact .ok trivial
  · exact .ok trivial
  · split
    · exact .ok trivial
    · exact .error
  · split
    · exact .ok trivial
    · exact .error
  · exact .error

private theorem toFloat_wellFormed (value : Value) : GivesWellFormed (toFloat value) := by
  unfold toFloat
  split
  · exact .ok trivial
  · exact .ok trivial
  · split
    · exact .ok trivial
    · exact .error
  · exact .error

private theorem lengthOf_wellFormed (function : String) (value : Value) :
    GivesWellFormed (lengthOf function value) := by
  unfold lengthOf
  split
  case h_4 => exact .error
  all_goals exact .ok trivial

private theorem callFunction_wellFormed (name : String) (args : List Value) :
    GivesWellFormed (callFunction name args) := by
  unfold callFunction
  split
  · exact .after fun _ => .ok trivial
  · exact .after fun _ => toInteger_wellFormed _
  · exact .after fun _ => toFloat_wellFormed _
  · exact .after fun _ => lengthOf_wellFormed _ _
  · exact .error

private theorem stringMethod_wellFormed (s method : String) (args : List Value) :
    GivesWellFormed (stringMethod s method args) := by
  unfold stringMethod
  dsimp only
  split
  case h_8 =>
    refine .after fun separator => .ok ?_
    simp
  case h_10 => exact .error
  all_goals exact .after fun _ => .ok trivial

private theorem listMethod_wellFormed (items : List Value) (method : String) (args : List Value) :
    GivesWellFormed (listMethod items method args) := by
  unfold listMethod
  split
  case h_4 => exact .error
  all_goals exact .after fun _ => .ok trivial

private theorem mapMethod_wellFormed {entries : Entries Value} (h : (Value.map entries).WellFormed)
    (method : String) {args : List Value} (hargs : ∀ v ∈ args, v.WellFormed) :
    GivesWellFormed (mapMethod entries method args) := by
  unfold mapMethod
  split
  · exact .after fun _ => .ok trivial
  · exact .after fun _ => .ok (Value.wellFormed_strings _)
  · exact .after fun _ => .ok trivial
  · split
    · exact .after fun key => .ok (Value.wellFormed_getD h key trivial)
    · exact .after fun key => .ok (Value.wellFormed_getD h key (hargs _ (by simp)))
    · exact .error
  · exact .error

/-- A method makes well-formed values of such ones. -/
theorem callMethod_wellFormed {value : Value} (h : value.WellFormed) (method : String)
    {args : List Value} (hargs : ∀ v ∈ args, v.WellFormed) :
    GivesWellFormed (callMethod value method args) := by
  unfold callMethod
  split
  · exact stringMethod_wellFormed _ method args
  · exact listMethod_wellFormed _ method args
  · exact mapMethod_wellFormed h method hargs
  · exact .error

/-! ## What a block sees -/

/-- All components that a block sees are well-formed. -/
def Surroundings.WellFormed (around : Surroundings) : Prop :=
  ∀ c ∈ around.graph.componentList, c.WellFormed

/-- The component and the event that a block may decorate are well-formed. -/
structure Subject.WellFormed (s : Subject) : Prop where
  component : ∀ c, s.component = some c → c.WellFormed
  event : ∀ e, s.event = some e → e.WellFormed

/-- The values of the local names are well-formed as well. -/
structure Frame.WellFormed (f : Frame) : Prop where
  locals : (Value.map f.locals).WellFormed
  subject : f.subject.WellFormed

section Graph

variable {around : Surroundings} (h : around.WellFormed)
include h

private theorem component?_wellFormed {uid : String} {c : Component}
    (hc : around.graph.component? uid = some c) : c.WellFormed :=
  h c (List.mem_map_of_mem (Entries.mem_of_get? hc))

private theorem componentValue_wellFormed {uid : String} :
    (componentValue (around.graph.component? uid)).WellFormed := by
  cases hc : around.graph.component? uid with
  | none => trivial
  | some c => exact (component?_wellFormed h hc).toValue

private theorem componentNamed?_wellFormed (name : String) :
    GivesWellFormed (found (around.graph.componentNamed? name)) := by
  unfold Graph.componentNamed?
  split
  · exact .ok trivial
  · exact .ok (componentValue_wellFormed h)
  · exact .error

private theorem componentOfType?_wellFormed (type name : String) :
    GivesWellFormed (found (around.graph.componentOfType? type name)) := by
  unfold Graph.componentOfType?
  split
  · exact .ok trivial
  · rename_i c hfound
    have hc : c ∈ ((around.graph.uidsOf name).filterMap around.graph.component?).filter
        (·.componentType == type) := by
      rw [hfound]
      exact List.mem_singleton_self c
    obtain ⟨uid, _, huid⟩ := List.mem_filterMap.1 (List.mem_of_mem_filter hc)
    exact .ok (component?_wellFormed h huid).toValue
  · exact .error

private theorem graphMethod_wellFormed (method : String) (args : List Value) :
    GivesWellFormed (graphMethod around.graph method args) := by
  unfold graphMethod
  split
  · exact .after fun _ => .ok (componentValue_wellFormed h)
  · exact .after fun _ => componentNamed?_wellFormed h _
  · exact .after fun _ => componentOfType?_wellFormed h _ _
  case h_7 => exact .after fun _ => .ok (Value.wellFormed_strings _)
  case h_8 => exact .error
  all_goals exact .after fun _ => .ok trivial

end Graph

/-! ## The subject -/

private theorem keyAndValue_wellFormed (function : String) {args : List Value}
    (hargs : ∀ v ∈ args, v.WellFormed) :
    Ensures (keyAndValue function args) fun a => a.2.WellFormed := by
  unfold keyAndValue twoArguments
  split
  · rename_i key value
    have hvalue : value.WellFormed := hargs value (by simp)
    exact .bind (Q := fun a => a.2.WellFormed) (.ok hvalue) fun _ ha => .after fun _ => .ok ha
  · exact .error

private theorem componentMethod_wellFormed {c : Component} (hc : c.WellFormed) (method : String)
    {args : List Value} (hargs : ∀ v ∈ args, v.WellFormed) :
    Ensures (componentMethod c method args) fun r => r.1.WellFormed ∧ r.2.WellFormed := by
  unfold componentMethod
  split
  case h_3 =>
    refine .after fun identifier => .ok ⟨trivial, ?_⟩
    unfold Component.addIdentifier
    split
    · exact hc
    · exact hc
  case h_4 =>
    refine .bind (keyAndValue_wellFormed _ hargs) fun a ha => .ok ⟨trivial, ?_⟩
    exact Value.wellFormed_insert hc a.1 ha
  case h_5 => exact .after fun key => .ok ⟨Value.wellFormed_getD hc key trivial, hc⟩
  case h_10 => exact .error
  all_goals exact .after fun _ => .ok ⟨trivial, hc⟩

private theorem eventMethod_wellFormed {e : Event} (he : e.WellFormed) (method : String)
    {args : List Value} (hargs : ∀ v ∈ args, v.WellFormed) :
    Ensures (eventMethod e method args) fun r => r.1.WellFormed ∧ r.2.WellFormed := by
  unfold eventMethod
  split
  · exact .after fun _ => .ok ⟨trivial, he⟩
  · refine .after fun identifier => .ok ⟨trivial, ?_⟩
    unfold Event.addIdentifier
    split
    · exact he
    · exact he
  · refine .bind (keyAndValue_wellFormed _ hargs) fun a ha => .ok ⟨trivial, ?_⟩
    exact Value.wellFormed_insert he a.1 ha
  · exact .error

/-! ## Steps -/

private theorem maintains_ofResult {α : Type} {x : Except EvalError α} {Q : α → Prop}
    (h : Ensures x Q) :
    Maintains Frame.WellFormed (Step.ofResult x) Q := by
  cases x with
  | ok a => exact .pure (h a rfl)
  | error e => exact .throw e

private theorem maintains_local? (name : String) :
    Maintains Frame.WellFormed (Step.local? name) fun found => ∀ v ∈ found, v.WellFormed :=
  .bind .get fun _ hf => .pure fun _ hv => Value.wellFormed_of_get? hf.locals hv

private theorem maintains_assign (name : String) {value : Value} (h : value.WellFormed) :
    Maintains Frame.WellFormed (Step.assign name value) fun _ => True :=
  .modify fun _ hf => ⟨Value.wellFormed_insert hf.locals name h, hf.subject⟩

private theorem maintains_onComponent (method : String) {args : List Value}
    (hargs : ∀ v ∈ args, v.WellFormed) :
    Maintains Frame.WellFormed (Step.onComponent method args) Value.WellFormed := by
  refine .bind .get fun f hf => ?_
  split
  · exact .throw _
  · rename_i c hc
    have hmethod := componentMethod_wellFormed (hf.subject.component c hc) method hargs
    refine (maintains_ofResult hmethod).bind fun ⟨value, after⟩ hafter => ?_
    refine Maintains.bind (.modify fun g hg => ⟨hg.locals, ?_, hg.subject.event⟩) fun _ _ =>
      .pure hafter.1
    rintro _ ⟨⟩
    exact hafter.2

private theorem maintains_onEvent (method : String) {args : List Value}
    (hargs : ∀ v ∈ args, v.WellFormed) :
    Maintains Frame.WellFormed (Step.onEvent method args) Value.WellFormed := by
  refine .bind .get fun f hf => ?_
  split
  · exact .throw _
  · rename_i e he
    have hmethod := eventMethod_wellFormed (hf.subject.event e he) method hargs
    refine (maintains_ofResult hmethod).bind fun ⟨value, after⟩ hafter => ?_
    refine Maintains.bind (.modify fun g hg => ⟨hg.locals, hg.subject.component, ?_⟩) fun _ _ =>
      .pure hafter.1
    rintro _ ⟨⟩
    exact hafter.2

private theorem bound_wellFormed (around : Surroundings) {s : Subject} (hs : s.WellFormed)
    (name : String) : GivesWellFormed (bound around s name) := by
  unfold bound
  split
  · exact .ok trivial
  · refine .ok ?_
    cases hc : s.component with
    | none => trivial
    | some c => exact (hs.component c hc).toValue
  · refine .ok ?_
    cases he : s.event with
    | none => trivial
    | some e => exact (hs.event e he).toValue
  · exact .error
  · exact .error

private theorem maintains_lookup (around : Surroundings) (name : String) :
    Maintains Frame.WellFormed (lookup around name) Value.WellFormed := by
  refine (maintains_local? name).bind fun found hfound => ?_
  cases found with
  | some value => exact .pure (hfound value rfl)
  | none =>
      exact .bind .get fun f hf => maintains_ofResult (bound_wellFormed around hf.subject name)

private theorem maintains_callName (name : String) (args : List Value) :
    Maintains Frame.WellFormed (callName name args) Value.WellFormed := by
  refine (maintains_local? name).bind fun found _ => ?_
  cases found with
  | some value => exact .throw _
  | none => exact maintains_ofResult (callFunction_wellFormed name args)

section

variable {around : Surroundings} (haround : around.WellFormed)
include haround

private theorem maintains_callOnName (name method : String) {args : List Value}
    (hargs : ∀ v ∈ args, v.WellFormed) :
    Maintains Frame.WellFormed (callOnName around name method args) Value.WellFormed := by
  refine (maintains_local? name).bind fun found hfound => ?_
  cases found with
  | some value => exact maintains_ofResult (callMethod_wellFormed (hfound value rfl) method hargs)
  | none =>
      dsimp only
      split
      · exact maintains_ofResult (graphMethod_wellFormed haround method args)
      · exact maintains_onComponent method hargs
      · exact maintains_onEvent method hargs
      · exact (maintains_lookup around name).bind fun v hv =>
          maintains_ofResult (callMethod_wellFormed hv method hargs)

end

/-! ## Expressions -/

mutual

/-- Evaluation keeps the frame well-formed and gives well-formed values. -/
theorem maintains_evaluate {around : Surroundings} (haround : around.WellFormed) :
    ∀ e : Expr, e.WellFormed → Maintains Frame.WellFormed (evaluate around e) Value.WellFormed
  | .literal _, h => .pure h
  | .name text, _ => maintains_lookup around text
  | .list items, h =>
      .bind (maintains_evaluateItems haround items h) fun _ hvalues =>
        .pure (Value.wellFormed_list.2 hvalues)
  | .map entries, h =>
      .bind (maintains_evaluateEntries haround (by simp) entries h) fun _ hdone => .pure hdone
  | .unary op operand, h =>
      .bind (maintains_evaluate haround operand h) fun a _ =>
        maintains_ofResult (unary_wellFormed op a)
  | .binary op left right, h => by
      have hleft := maintains_evaluate haround left h.1
      have hright := maintains_evaluate haround right h.2
      cases op with
      | and =>
          refine hleft.bind fun a _ => ?_
          split
          · exact hright.bind fun _ _ => .pure trivial
          · exact .pure trivial
      | or =>
          refine hleft.bind fun a _ => ?_
          split
          · exact .pure trivial
          · exact hright.bind fun _ _ => .pure trivial
      | _ =>
          exact hleft.bind fun _ ha => hright.bind fun _ hb =>
            maintains_ofResult (binary_wellFormed _ ha hb)
  | .conditional condition yes no, h => by
      refine (maintains_evaluate haround condition h.1).bind fun a _ => ?_
      split
      · exact maintains_evaluate haround yes h.2.1
      · exact maintains_evaluate haround no h.2.2
  | .field base text, h =>
      .bind (maintains_evaluate haround base h) fun _ ha =>
        maintains_ofResult (field_wellFormed ha text)
  | .index base place, h =>
      .bind (maintains_evaluate haround base h.1) fun _ ha =>
        .bind (maintains_evaluate haround place h.2) fun b _ =>
          maintains_ofResult (subscript_wellFormed ha b)
  | .call callee args, h => by
      have hargs := maintains_evaluateItems haround args h.2
      cases callee with
      | name text => exact hargs.bind fun _ _ => maintains_callName text _
      | field receiver method =>
          have hreceiver := maintains_evaluate haround receiver h.1
          cases receiver with
          | name text =>
              exact hargs.bind fun _ hvalues => maintains_callOnName haround text method hvalues
          | _ =>
              exact hargs.bind fun _ hvalues => hreceiver.bind fun _ ha =>
                maintains_ofResult (callMethod_wellFormed ha method hvalues)
      | _ => exact hargs.bind fun _ _ => .throw _

theorem maintains_evaluateItems {around : Surroundings} (haround : around.WellFormed) :
    ∀ es : List Expr, Expr.WellFormedItems es → Maintains Frame.WellFormed
      (evaluateItems around es) fun values => ∀ v ∈ values, v.WellFormed
  | [], _ => .pure (by simp)
  | e :: rest, h =>
      .bind (maintains_evaluate haround e h.1) fun _ ha =>
        .bind (maintains_evaluateItems haround rest h.2) fun _ hmore =>
          .pure (List.forall_mem_cons.2 ⟨ha, hmore⟩)

theorem maintains_evaluateEntries {around : Surroundings} (haround : around.WellFormed)
    {done : Entries Value} (hdone : (Value.map done).WellFormed) :
    ∀ es : List (String × Expr), Expr.WellFormedEntries es → Maintains Frame.WellFormed
      (evaluateEntries around done es) fun entries => (Value.map entries).WellFormed
  | [], _ => .pure hdone
  | (key, e) :: rest, h =>
      .bind (maintains_evaluate haround e h.1) fun _ ha =>
        maintains_evaluateEntries haround (Value.wellFormed_insert hdone key ha) rest h.2

end

/-! ## Blocks -/

section

variable {around : Surroundings} (haround : around.WellFormed)
include haround

private theorem maintains_runStatement {statement : Statement} (h : statement.WellFormed) :
    Maintains Frame.WellFormed (runStatement around statement) Value.WellFormed := by
  cases statement with
  | expr e => exact maintains_evaluate haround e h
  | assign name e =>
      have hassign : Maintains Frame.WellFormed (do
          Step.assign name (← evaluate around e)
          return Value.null) Value.WellFormed :=
        (maintains_evaluate haround e h).bind fun _ ha =>
          (maintains_assign name ha).bind fun _ _ => .pure trivial
      dsimp only [runStatement]
      split
      · exact Maintains.bind (Q := fun _ => True) (.throw _) fun _ _ => hassign
      · exact hassign

private theorem maintains_run {block : Block} (h : ∀ statement ∈ block, statement.WellFormed) :
    ∀ {last : Value}, last.WellFormed →
      Maintains Frame.WellFormed (run around last block) Value.WellFormed := by
  induction block with
  | nil => exact fun hlast => .pure hlast
  | cons statement rest ih =>
      rw [List.forall_mem_cons] at h
      exact fun _ => (maintains_runStatement haround h.1).bind fun _ ha => ih h.2 ha

end

/-- The text of a code block gives a well-formed value and leaves the subject well-formed. -/
theorem evaluateText_wellFormed {around : Surroundings} (haround : around.WellFormed)
    {subject after : Subject} (hsubject : subject.WellFormed) {property element code : String}
    {v : Value} (h : evaluateText around property element code subject = (.ok v, after)) :
    v.WellFormed ∧ after.WellFormed := by
  unfold evaluateText at h
  dsimp only at h
  split at h
  · cases h
  · rename_i block hread
    have hframe : Frame.WellFormed ⟨[], subject⟩ := ⟨by simp, hsubject⟩
    rcases hrun : (run around .null block).run ⟨[], subject⟩ with ⟨e | w, f⟩
    · simp only [outcome, hrun] at h
      cases h
    · simp only [outcome, hrun] at h
      cases h
      obtain ⟨hvalue, hafter⟩ :=
        maintains_run haround (read_wellFormed hread) Value.wellFormed_null _ hframe v f hrun
      exact ⟨hvalue, hafter.subject⟩

end InfraGraph.Block
