import InfraGraph.Block.Error
import InfraGraph.Decimal.Binary
import InfraGraph.Decimal.Integer

/-!
# Operators

Arithmetic on integers is exact or refused. As soon as one operand is a floating-point number, both
are taken as such. Addition also joins strings and lists.
-/

namespace InfraGraph.Block

/-! ## Integers -/

/-- The integer with a value, if it fits into 64 bits. -/
def fitting (n : Int) : Except EvalError Value :=
  match Decimal.narrow? n with
  | some w => .ok (.int w)
  | none => .error .overflow

/-- Arithmetic on integers. A quotient is rounded toward zero and a remainder has the sign of the
dividend; there is a remainder only where there is a quotient. -/
def intArithmetic (op : BinaryOp) (a b : Int64) : Except EvalError Value :=
  match op with
  | .add => fitting (a.toInt + b.toInt)
  | .sub => fitting (a.toInt - b.toInt)
  | .mul => fitting (a.toInt * b.toInt)
  | .div => if b.toInt = 0 then .error .divisionByZero else fitting (a.toInt.tdiv b.toInt)
  | .rem =>
    if b.toInt = 0 then .error .divisionByZero
    else do
      let _ ← fitting (a.toInt.tdiv b.toInt)
      fitting (a.toInt.tmod b.toInt)
  | _ => .error (.operands op "int" "int")

/-! ## Floating-point numbers -/

/-- Arithmetic on floating-point numbers. Division by zero of either sign is refused. -/
def floatArithmetic (op : BinaryOp) (left right : Value) (a b : Float) : Except EvalError Value :=
  match op with
  | .add => .ok (.float (a + b))
  | .sub => .ok (.float (a - b))
  | .mul => .ok (.float (a * b))
  | .div => if b == 0.0 then .error .divisionByZero else .ok (.float (a / b))
  | .rem => if b == 0.0 then .error .divisionByZero else .ok (.float (Decimal.remainder a b))
  | _ => .error (.operands op left.typeName right.typeName)

/-! ## Values -/

/-- Arithmetic on values. -/
def arithmetic (op : BinaryOp) (left right : Value) : Except EvalError Value :=
  match left, right with
  | .int a, .int b => intArithmetic op a b
  | .int a, .float y => floatArithmetic op left right (Decimal.widen a) y
  | .float x, .int b => floatArithmetic op left right x (Decimal.widen b)
  | .float x, .float y => floatArithmetic op left right x y
  | .string s, .string t =>
    if op = .add then .ok (.string (s ++ t)) else .error (.operands op "string" "string")
  | .list xs, .list ys =>
    if op = .add then .ok (.list (xs ++ ys)) else .error (.operands op "list" "list")
  | _, _ => .error (.operands op left.typeName right.typeName)

/-- Whether two values count as equal. An integer equals a floating-point number of its value;
inside lists and maps, and otherwise, types must agree. -/
def equal (left right : Value) : Bool :=
  match left, right with
  | .int a, .float y => Decimal.widen a == y
  | .float x, .int b => x == Decimal.widen b
  | _, _ => Value.same left right

/-- Which way two floating-point numbers are ordered, if they are. -/
def floatOrder (a b : Float) : Option Ordering :=
  if a < b then some .lt else if a == b then some .eq else if b < a then some .gt else none

/-- Which way two values are ordered: none if one of them is no number, and an error if they are not
both numbers or both strings. Strings are ordered by code points. -/
def order (op : BinaryOp) (left right : Value) : Except EvalError (Option Ordering) :=
  match left, right with
  | .int a, .int b => .ok (some (compare a.toInt b.toInt))
  | .string s, .string t => .ok (some (if s < t then .lt else if s = t then .eq else .gt))
  | _, _ =>
    match left.asFloat?, right.asFloat? with
    | some x, some y => .ok (floatOrder x y)
    | _, _ => .error (.operands op left.typeName right.typeName)

/-- Whether a comparison holds of values ordered so. -/
def holds (op : BinaryOp) (o : Ordering) : Bool :=
  match op with
  | .lt => o.isLT
  | .le => o.isLE
  | .gt => o.isGT
  | _ => o.isGE

/-- A comparison. It is false where the values are not ordered. -/
def comparison (op : BinaryOp) (left right : Value) : Except EvalError Value := do
  match ← order op left right with
  | some o => return .bool (holds op o)
  | none => return .bool false

/-- An operator between two values. -/
def binary (op : BinaryOp) (left right : Value) : Except EvalError Value :=
  match op with
  | .eq => .ok (.bool (equal left right))
  | .ne => .ok (.bool (!equal left right))
  | .lt | .le | .gt | .ge => comparison op left right
  | _ => arithmetic op left right

/-- An operator before a value. -/
def unary (op : UnaryOp) (value : Value) : Except EvalError Value :=
  match op, value with
  | .not, v => .ok (.bool (!v.truthy))
  | .neg, .int n => fitting (-n.toInt)
  | .neg, .float x => .ok (.float (-x))
  | .neg, v => .error (.operand .neg v.typeName)

/-! ## Parts of values -/

/-- The place that an index means in a sequence; negative indices count from the end. -/
def place (index : Int64) (length : Nat) : Except EvalError Nat :=
  let i := if index.toInt < 0 then index.toInt + length else index.toInt
  if 0 ≤ i ∧ i < length then .ok i.toNat else .error (.indexOutOfRange index length)

/-- The part of a value at an index: an item, a character or what is under a key. -/
def subscript (container index : Value) : Except EvalError Value :=
  match container, index with
  | .list items, .int i => do return items.getD (← place i items.length) .null
  | .string s, .int i => do
    let cs := s.toList
    return .string (String.ofList [cs.getD (← place i cs.length) ' '])
  | .map entries, .string key =>
    match Entries.get? entries key with
    | some v => .ok v
    | none => .error (.missingKey key)
  | _, _ => .error (.badIndex container.typeName index.typeName)

/-- The part of a map under a name. -/
def field (value : Value) (name : String) : Except EvalError Value :=
  match value with
  | .map entries =>
    match Entries.get? entries name with
    | some v => .ok v
    | none => .error (.noField value.typeName name)
  | _ => .error (.noField value.typeName name)

end InfraGraph.Block
