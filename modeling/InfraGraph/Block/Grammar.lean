import InfraGraph.Block.Basic
import InfraGraph.Block.Token
import InfraGraph.Reading.Reader

/-!
# The grammar of code blocks

Binary operators bind in six levels, the loosest first: `||`, `&&`, equality, comparison, sums,
products; all of them group to the left. Operators before an operand bind tighter, and attributes,
indices and calls behind it tighter still. A conditional reaches as far to the right as it can.

Every reader that repeats or nests takes a bound. It is chosen above the number of tokens of the
text, so it is never reached: each time a token is read, and only the last attempt reads nothing.
-/

namespace InfraGraph.Block

open InfraGraph.Reading

namespace Grammar

/-- Reads a symbol. -/
def symbol (s : Symbol) : Reader Token Unit :=
  Reader.lexeme [(Token.symbol s).describe] fun x =>
    match x.token with
    | .symbol t => if t = s then .take () else .pass
    | _ => .pass

/-- Reads the end of a statement. -/
def separator : Reader Token Unit :=
  Reader.lexeme [Token.separator.describe] fun x =>
    match x.token with
    | .separator => .take ()
    | _ => .pass

/-- Reads a name. -/
def name : Reader Token String :=
  Reader.lexeme [] fun x =>
    match x.token with
    | .name s => .take s
    | _ => .pass

/-- Reads what stands between two symbols. -/
def between {α : Type} (opening closing : Symbol) (p : Reader Token α) : Reader Token α := do
  symbol opening
  let a ← p
  symbol closing
  return a

/-! ## Atoms -/

/-- Reads a literal. -/
def literal : Reader Token Expr :=
  Reader.lexeme [] fun x =>
    match x.token with
    | .int n => .take (.literal (.int n))
    | .float y => .take (.literal (.float y))
    | .string s => .take (.literal (.string s))
    | .symbol .trueWord => .take (.literal (.bool true))
    | .symbol .falseWord => .take (.literal (.bool false))
    | .symbol .nullWord => .take (.literal .null)
    | _ => .pass

/-- Reads a conditional. -/
def conditional (e : Reader Token Expr) : Reader Token Expr := do
  symbol .ifWord
  let condition ← e
  symbol .thenWord
  let yes ← e
  symbol .elseWord
  let no ← e
  return .conditional condition yes no

/-- Reads expressions with commas between them. -/
def expressions (e : Reader Token Expr) (n : Nat) : Reader Token (List Expr) :=
  Reader.items e (symbol .comma) n

/-- Reads the key of an entry. -/
def entryKey : Reader Token String :=
  Reader.lexeme [] fun x =>
    match x.token with
    | .name s => .take s
    | .string s => .take s
    | _ => .pass

/-- Reads an entry of a map. -/
def entry (e : Reader Token Expr) : Reader Token (String × Expr) := do
  let key ← entryKey
  symbol .colon
  let value ← e
  return (key, value)

/-- Reads an expression that no operator at its outside belongs to. -/
def atom (e : Reader Token Expr) (n : Nat) : Reader Token Expr :=
  literal
    <|> conditional e
    <|> Expr.name <$> name
    <|> Expr.list <$> between .bracketOpen .bracketClose (expressions e n)
    <|> Expr.map <$> between .braceOpen .braceClose (Reader.items (entry e) (symbol .comma) n)
    <|> between .parenOpen .parenClose e

/-! ## Operators -/

/-- What may stand behind an operand. -/
inductive Postfix where
  | field (text : String)
  | index (place : Expr)
  | call (arguments : List Expr)

/-- An operand with something behind it. -/
def Postfix.applyTo (base : Expr) : Postfix → Expr
  | field text => .field base text
  | index place => .index base place
  | call arguments => .call base arguments

/-- Reads what stands behind an operand. -/
def behind (e : Reader Token Expr) (n : Nat) : Reader Token Postfix :=
  (do symbol .dot; Postfix.field <$> name)
    <|> Postfix.index <$> between .bracketOpen .bracketClose e
    <|> Postfix.call <$> between .parenOpen .parenClose (expressions e n)

/-- Reads an atom and all that stands behind it. -/
def access (e : Reader Token Expr) (n : Nat) : Reader Token Expr := do
  let base ← atom e n
  let more ← Reader.many (behind e n) n
  return more.foldl Postfix.applyTo base

/-- Reads an operand and the operators before it. -/
def operand (e : Reader Token Expr) (n : Nat) : Reader Token Expr := do
  let ops ← Reader.many
    ((do symbol .minus; return .neg) <|> (do symbol .bang; return .not) : Reader Token UnaryOp) n
  let base ← access e n
  return ops.foldr Expr.unary base

/-- Reads one of several operators. -/
def oneOf : List (Symbol × BinaryOp) → Reader Token BinaryOp
  | [] => Reader.never
  | (s, op) :: rest => (do symbol s; return op) <|> oneOf rest

/-- Reads operands with operators of one level between them. -/
def level (ops : List (Symbol × BinaryOp)) (n : Nat) (p : Reader Token Expr) :
    Reader Token Expr := do
  let first ← p
  let more ← Reader.many (do let op ← oneOf ops; let right ← p; return (op, right)) n
  return more.foldl (fun left r => .binary r.1 left r.2) first

/-- The levels of binary operators, the tightest first. -/
def levels : List (List (Symbol × BinaryOp)) :=
  [[(.star, .mul), (.slash, .div), (.percent, .rem)],
    [(.plus, .add), (.minus, .sub)],
    [(.atMost, .le), (.atLeast, .ge), (.less, .lt), (.greater, .gt)],
    [(.equal, .eq), (.unequal, .ne)],
    [(.both, .and)],
    [(.either, .or)]]

/-- Reads an expression, given a reader for the expressions inside it. -/
def expressionWith (e : Reader Token Expr) (n : Nat) : Reader Token Expr :=
  levels.foldl (fun p ops => level ops n p) (operand e n)

/-- Reads an expression whose parts nest less deeply than the bound. -/
def expression : Nat → Reader Token Expr
  | 0, _ => ⟨none, none⟩
  | n + 1, xs => expressionWith (expression n) n xs

/-! ## Statements -/

/-- Reads a statement. -/
def statement (n : Nat) : Reader Token Statement :=
  (do
    let target ← name
    symbol .assign
    let e ← expression n
    return .assign target e)
    <|> Statement.expr <$> expression n

/-- Reads a code block. -/
def block (n : Nat) : Reader Token Block := do
  let _ ← Reader.optional separator
  Reader.items (statement n) separator n

end Grammar

/-- Reads a code block. -/
def read (text : List Char) : Except (List SyntaxError) Block := do
  let xs ← Token.lexemes text
  Reader.readAll (Grammar.block (xs.length + 2)) Token.describe text xs

end InfraGraph.Block
