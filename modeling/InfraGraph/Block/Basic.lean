import InfraGraph.Value.Basic

/-!
# Code blocks

A code block is a sequence of statements: assignments to local names, and expressions, the last of
which gives the value of the block.
-/

namespace InfraGraph.Block

/-- The operators before an operand. -/
inductive UnaryOp where
  | neg | not
  deriving DecidableEq, Repr, Inhabited

/-- The operators between two operands. -/
inductive BinaryOp where
  | add | sub | mul | div | rem | eq | ne | lt | le | gt | ge | and | or
  deriving DecidableEq, Repr, Inhabited

/-- How an operator is written. -/
def UnaryOp.text : UnaryOp → String
  | neg => "-"
  | not => "!"

/-- How an operator is written. -/
def BinaryOp.text : BinaryOp → String
  | add => "+"
  | sub => "-"
  | mul => "*"
  | div => "/"
  | rem => "%"
  | eq => "=="
  | ne => "!="
  | lt => "<"
  | le => "<="
  | gt => ">"
  | ge => ">="
  | and => "&&"
  | or => "||"

/-- An expression. -/
inductive Expr where
  | literal (v : Value)
  | name (text : String)
  | list (items : List Expr)
  | map (entries : List (String × Expr))
  | unary (op : UnaryOp) (operand : Expr)
  | binary (op : BinaryOp) (left right : Expr)
  | conditional (condition yes no : Expr)
  | field (base : Expr) (text : String)
  | index (base place : Expr)
  | call (callee : Expr) (arguments : List Expr)
  deriving Inhabited

/-- A statement. -/
inductive Statement where
  | assign (name : String) (e : Expr)
  | expr (e : Expr)
  deriving Inhabited

end InfraGraph.Block

namespace InfraGraph

/-- A code block: its statements in order. -/
abbrev Block := List Block.Statement

end InfraGraph
