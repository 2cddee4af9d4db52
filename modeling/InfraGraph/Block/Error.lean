import InfraGraph.Block.Basic
import InfraGraph.SemanticError

/-!
# Evaluation errors

What can go wrong when a code block is evaluated. An error ends the evaluation; what the block has
done to its subject before stays done.
-/

namespace InfraGraph.Block

/-- What went wrong. -/
inductive EvalError where
  /-- A name stands for nothing. -/
  | undefinedName (name : String)
  /-- The subject is not of this sort. -/
  | unbound (binding : String)
  /-- A name cannot be assigned to. -/
  | readOnly (name : String)
  /-- The graph is used as a value. -/
  | graphValue
  /-- An operator does not apply to values of these types. -/
  | operands (op : BinaryOp) (left right : String)
  /-- An operator does not apply to a value of this type. -/
  | operand (op : UnaryOp) (found : String)
  | divisionByZero
  /-- The result does not fit into 64 bits. -/
  | overflow
  | noField (type field : String)
  | noMethod (type method : String)
  /-- A function is called with the wrong number of arguments. -/
  | arity (function : String) (expected found : Nat)
  /-- A function is called with an argument of the wrong type. -/
  | argumentType (function expected found : String)
  | indexOutOfRange (index : Int64) (length : Nat)
  /-- A value of one type cannot be indexed with a value of the other. -/
  | badIndex (container index : String)
  | missingKey (key : String)
  | notCallable
  /-- A value does not convert to a type. -/
  | conversion (value target : String)
  /-- A look-up in the graph failed. -/
  | lookup (cause : SemanticError)
  deriving DecidableEq, Repr, Inhabited

/-- The message of an error. -/
def EvalError.message : EvalError → String
  | undefinedName name => "name '" ++ name ++ "' is not defined"
  | unbound binding => "'" ++ binding ++ "' is not available in this context"
  | readOnly name => "cannot assign to '" ++ name ++ "'"
  | graphValue => "'graph' can only be used through its methods"
  | operands op left right =>
    "unsupported operand types for " ++ op.text ++ ": " ++ left ++ " and " ++ right
  | operand op found => "bad operand type for unary " ++ op.text ++ ": " ++ found
  | divisionByZero => "division by zero"
  | overflow => "integer overflow"
  | noField type field => type ++ " has no attribute '" ++ field ++ "'"
  | noMethod type method => type ++ " has no method '" ++ method ++ "'"
  | arity function expected found =>
    function ++ "() takes " ++ toString expected ++ " argument(s), " ++ toString found ++ " given"
  | argumentType function expected found =>
    function ++ "() argument must be " ++ expected ++ ", not " ++ found
  | indexOutOfRange index length =>
    "index " ++ Value.intText index ++ " out of range for length " ++ toString length
  | badIndex container index => "cannot index " ++ container ++ " with " ++ index
  | missingKey key => "key '" ++ key ++ "' not found"
  | notCallable => "expression is not callable"
  | conversion value target => "cannot convert '" ++ value ++ "' to " ++ target
  | lookup cause => cause.message

end InfraGraph.Block
