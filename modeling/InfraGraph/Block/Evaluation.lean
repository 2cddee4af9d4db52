import InfraGraph.Block.Grammar
import InfraGraph.Block.Indentation
import InfraGraph.Block.Methods

/-!
# Evaluation of code blocks

Expressions are evaluated from left to right, the arguments of a call before what is called. The
names of what a block sees cannot be assigned to, so that they always mean the same. An evaluation
that ends with an error keeps what was done to the subject before.
-/

namespace InfraGraph.Block

/-- What changes while a block is evaluated. -/
structure Frame where
  locals : Entries Value
  subject : Subject
  deriving Inhabited

/-- A step of an evaluation, which may change the frame and may fail. -/
abbrev Step (α : Type) := ExceptT EvalError (StateM Frame) α

namespace Step

/-- A step that only computes. -/
def ofResult {α : Type} : Except EvalError α → Step α
  | .ok a => pure a
  | .error e => throw e

/-- The value of a local name, if it has one. -/
def local? (name : String) : Step (Option Value) := do return Entries.get? (← get).locals name

/-- Gives a local name a value. -/
def assign (name : String) (value : Value) : Step Unit :=
  modify fun f => { f with locals := Entries.insert f.locals name value }

/-- Calls a method of the component. -/
def onComponent (method : String) (args : List Value) : Step Value := do
  match (← get).subject.component with
  | none => throw (.unbound "component")
  | some c =>
    let (value, after) ← ofResult (componentMethod c method args)
    modify fun f => { f with subject.component := some after }
    return value

/-- Calls a method of the event. -/
def onEvent (method : String) (args : List Value) : Step Value := do
  match (← get).subject.event with
  | none => throw (.unbound "event")
  | some e =>
    let (value, after) ← ofResult (eventMethod e method args)
    modify fun f => { f with subject.event := some after }
    return value

end Step

open Step

/-- What a name stands for if it is not local. -/
def bound (around : Surroundings) (subject : Subject) (name : String) : Except EvalError Value :=
  match name with
  | "repeat_index" => .ok (.int around.repetition)
  | "component" => .ok ((subject.component.map Component.toValue).getD .null)
  | "event" => .ok ((subject.event.map Event.toValue).getD .null)
  | "graph" => .error .graphValue
  | _ => .error (.undefinedName name)

/-- What a name stands for. -/
def lookup (around : Surroundings) (name : String) : Step Value := do
  match ← local? name with
  | some value => return value
  | none => ofResult (bound around (← get).subject name)

/-- Calls a method of what a name stands for. -/
def callOnName (around : Surroundings) (name method : String) (args : List Value) : Step Value := do
  match ← local? name with
  | some value => ofResult (callMethod value method args)
  | none =>
    match name with
    | "graph" => ofResult (graphMethod around.graph method args)
    | "component" => onComponent method args
    | "event" => onEvent method args
    | _ => ofResult (callMethod (← lookup around name) method args)

/-- Calls a function by its name. -/
def callName (name : String) (args : List Value) : Step Value := do
  match ← local? name with
  | some _ => throw .notCallable
  | none => ofResult (callFunction name args)

mutual

/-- Evaluates an expression. -/
def evaluate (around : Surroundings) : Expr → Step Value
  | .literal v => return v
  | .name text => lookup around text
  | .list items => return .list (← evaluateItems around items)
  | .map entries => return .map (← evaluateEntries around [] entries)
  | .unary op operand => do ofResult (unary op (← evaluate around operand))
  | .binary .and left right => do
    if (← evaluate around left).truthy then return .bool (← evaluate around right).truthy
    else return .bool false
  | .binary .or left right => do
    if (← evaluate around left).truthy then return .bool true
    else return .bool (← evaluate around right).truthy
  | .binary op left right => do
    let a ← evaluate around left
    let b ← evaluate around right
    ofResult (binary op a b)
  | .conditional condition yes no => do
    if (← evaluate around condition).truthy then evaluate around yes else evaluate around no
  | .field base text => do ofResult (field (← evaluate around base) text)
  | .index base position => do
    let container ← evaluate around base
    let index ← evaluate around position
    ofResult (subscript container index)
  | .call (.field (.name text) method) args => do
    callOnName around text method (← evaluateItems around args)
  | .call (.field receiver method) args => do
    let values ← evaluateItems around args
    ofResult (callMethod (← evaluate around receiver) method values)
  | .call (.name text) args => do callName text (← evaluateItems around args)
  | .call _ args => do
    let _ ← evaluateItems around args
    throw .notCallable

/-- Evaluates expressions in order. -/
def evaluateItems (around : Surroundings) : List Expr → Step (List Value)
  | [] => return []
  | e :: rest => do
    let v ← evaluate around e
    return v :: (← evaluateItems around rest)

/-- Evaluates the entries of a map in order and writes them into a map. -/
def evaluateEntries (around : Surroundings) (done : Entries Value) :
    List (String × Expr) → Step (Entries Value)
  | [] => return done
  | (key, e) :: rest => do
    let v ← evaluate around e
    evaluateEntries around (Entries.insert done key v) rest

end

/-- Runs a statement; its value is that of an expression, and null after an assignment. -/
def runStatement (around : Surroundings) : Statement → Step Value
  | .assign name e => do
    if bindings.contains name then throw (.readOnly name)
    assign name (← evaluate around e)
    return .null
  | .expr e => evaluate around e

/-- Runs statements in order; the last one gives the value. -/
def run (around : Surroundings) (last : Value) : Block → Step Value
  | [] => return last
  | s :: rest => do run around (← runStatement around s) rest

/-- Evaluates a block on a subject: its value or the error, and the subject after it. -/
def outcome (around : Surroundings) (block : Block) (subject : Subject) :
    Except EvalError Value × Subject :=
  let (result, frame) := (run around .null block).run ⟨[], subject⟩
  (result, frame.subject)

/-! ## Code as text -/

/-- The description of a syntax error in a code block. -/
def describe (text : List Char) (e : Reading.SyntaxError) : String :=
  let place := e.position text
  toString place.line ++ ":" ++ toString place.column ++ ": " ++ e.message

/-- Evaluates the text of a code block that stands under a property of an element: its value or the
error, and the subject after it. -/
def evaluateText (around : Surroundings) (property element : String) (code : String)
    (subject : Subject) : Except SemanticError Value × Subject :=
  let text := normalize code.toList
  let failed (errors : List String) : SemanticError :=
    .evaluation property element (String.ofList text) errors
  match read text with
  | .error errors => (.error (failed (errors.map (describe text))), subject)
  | .ok block =>
    let (result, after) := outcome around block subject
    (result.mapError fun e => failed [e.message], after)

end InfraGraph.Block
