import InfraGraph.Block.Basic
import InfraGraph.Block.Token
import InfraGraph.Proofs.Reading.Sequences
import InfraGraph.Proofs.Reading.Spelling

/-!
# Writing code blocks down

An expression is written with parentheses only where the table of precedence asks for them. The
tightness of an expression is that of the operator at its outside: a conditional is the loosest,
then come the six levels of binary operators, then the operators before an operand, and what has no
operator at its outside is the tightest. Where an operand of some tightness is expected, a looser
one is put in parentheses. Binary operators group to the left, so the right operand has to be
tighter than the operator, and the left one as tight.

Tokens are separated by a space, statements by a newline or a semicolon.

## Main definitions

* `Expr.tokens` — an expression as tokens, with the fewest parentheses.
* `write` — a code block as a text.
* `Expr.Writable` — the expressions that have a text.
-/

namespace InfraGraph.Block

open Reading (moreTokens)

/-! ## Tightness -/

/-- How an operator is written. -/
def UnaryOp.symbol : UnaryOp → Symbol
  | neg => .minus
  | not => .bang

/-- How an operator is written. -/
def BinaryOp.symbol : BinaryOp → Symbol
  | add => .plus
  | sub => .minus
  | mul => .star
  | div => .slash
  | rem => .percent
  | eq => .equal
  | ne => .unequal
  | lt => .less
  | le => .atMost
  | gt => .greater
  | ge => .atLeast
  | and => .both
  | or => .either

/-- How tight a binary operator binds. -/
def BinaryOp.tightness : BinaryOp → Nat
  | or => 1
  | and => 2
  | eq | ne => 3
  | lt | le | gt | ge => 4
  | add | sub => 5
  | mul | div | rem => 6

namespace Expr

/-- The tightness of an expression with an operator before its operand. -/
def prefixed : Nat := 7

/-- The tightness of an expression that no operator at its outside belongs to. -/
def closed : Nat := 8

/-- How tight the operator at the outside of an expression binds. -/
def tightness : Expr → Nat
  | conditional .. => 0
  | binary op .. => op.tightness
  | unary .. => prefixed
  | _ => closed

/-! ## Tokens -/

/-- Tokens in parentheses. -/
def enclosed (ts : List Token) : List Token :=
  .symbol .parenOpen :: (ts ++ [.symbol .parenClose])

/-- The tokens of an operand of a tightness where at least another one is expected. -/
def operandTokens (expected actual : Nat) (ts : List Token) : List Token :=
  if expected ≤ actual then ts else enclosed ts

/-- The token of a constant. -/
def constantToken : Value → Token
  | .bool true => .symbol .trueWord
  | .bool false => .symbol .falseWord
  | .int n => .int n
  | .string s => .string s
  | _ => .symbol .nullWord

mutual

/-- The tokens of an expression. -/
def tokens : Expr → List Token
  | literal v => [constantToken v]
  | name text => [.name text]
  | list items => .symbol .bracketOpen :: ((itemTokens items).tail ++ [.symbol .bracketClose])
  | map entries => .symbol .braceOpen :: ((entryTokens entries).tail ++ [.symbol .braceClose])
  | unary op e => .symbol op.symbol :: operandTokens prefixed e.tightness e.tokens
  | binary op left right =>
      operandTokens op.tightness left.tightness left.tokens ++
        .symbol op.symbol :: operandTokens (op.tightness + 1) right.tightness right.tokens
  | conditional condition yes no =>
      .symbol .ifWord :: (condition.tokens ++
        .symbol .thenWord :: (yes.tokens ++ .symbol .elseWord :: no.tokens))
  | field base text =>
      operandTokens closed base.tightness base.tokens ++ [.symbol .dot, .name text]
  | index base place =>
      operandTokens closed base.tightness base.tokens ++
        .symbol .bracketOpen :: (place.tokens ++ [.symbol .bracketClose])
  | call callee arguments =>
      operandTokens closed callee.tightness callee.tokens ++
        .symbol .parenOpen :: ((itemTokens arguments).tail ++ [.symbol .parenClose])

/-- The tokens of expressions, each behind a comma. -/
def itemTokens : List Expr → List Token
  | [] => []
  | e :: more => .symbol .comma :: (e.tokens ++ itemTokens more)

/-- The tokens of entries, each behind a comma. A key is always quoted. -/
def entryTokens : List (String × Expr) → List Token
  | [] => []
  | (key, e) :: more =>
      .symbol .comma :: .string key :: .symbol .colon :: (e.tokens ++ entryTokens more)

end

/-- The tokens of an entry. -/
def tokensOfEntry (entry : String × Expr) : List Token :=
  .string entry.1 :: .symbol .colon :: entry.2.tokens

/-- Items are written with commas between them. -/
theorem itemTokens_eq (items : List Expr) :
    itemTokens items = moreTokens (.symbol .comma) tokens items false := by
  induction items with
  | nil => rfl
  | cons e more ih => rw [itemTokens, ih, Reading.moreTokens_cons]

/-- Entries are written with commas between them. -/
theorem entryTokens_eq (entries : List (String × Expr)) :
    entryTokens entries = moreTokens (.symbol .comma) tokensOfEntry entries false := by
  induction entries with
  | nil => rfl
  | cons entry more ih =>
      rw [entryTokens, ih, Reading.moreTokens_cons]
      rfl

/-! ## Writable expressions -/

/-- The words with a meaning of their own. -/
def reserved : List String := ["if", "then", "else", "true", "false", "null"]

/-- Whether a text is a name. -/
def isName (text : String) : Bool := Reading.isPlainWord reserved text

/-- The expressions that can be written: constants are the null value, truth values, strings and
integers that are not negative, and names and fields are names. -/
inductive Writable : Expr → Prop
  | null : Writable (literal .null)
  | bool (b : Bool) : Writable (literal (.bool b))
  | string (s : String) : Writable (literal (.string s))
  | int {n : Int64} (hn : 0 ≤ n.toInt) : Writable (literal (.int n))
  | name {text : String} (htext : isName text = true) : Writable (name text)
  | list {items : List Expr} (hitems : ∀ e ∈ items, Writable e) : Writable (list items)
  | map {entries : List (String × Expr)} (hentries : ∀ entry ∈ entries, Writable entry.2) :
      Writable (map entries)
  | unary (op : UnaryOp) {e : Expr} (he : Writable e) : Writable (unary op e)
  | binary (op : BinaryOp) {left right : Expr} (hleft : Writable left) (hright : Writable right) :
      Writable (binary op left right)
  | conditional {condition yes no : Expr} (hcondition : Writable condition) (hyes : Writable yes)
      (hno : Writable no) : Writable (conditional condition yes no)
  | field {base : Expr} {text : String} (hbase : Writable base) (htext : isName text = true) :
      Writable (field base text)
  | index {base place : Expr} (hbase : Writable base) (hplace : Writable place) :
      Writable (index base place)
  | call {callee : Expr} {arguments : List Expr} (hcallee : Writable callee)
      (harguments : ∀ e ∈ arguments, Writable e) : Writable (call callee arguments)

end Expr

/-! ## Statements and blocks -/

namespace Statement

/-- The tokens of a statement. -/
def tokens : Statement → List Token
  | assign target e => .name target :: .symbol .assign :: e.tokens
  | expr e => e.tokens

/-- The statements that can be written. -/
inductive Writable : Statement → Prop
  | assign {target : String} {e : Expr} (htarget : Expr.isName target = true)
      (he : e.Writable) : Writable (assign target e)
  | expr {e : Expr} (he : e.Writable) : Writable (expr e)

end Statement

/-! ## Texts -/

/-- How a token is written. -/
def Token.spelling : Token → List Char
  | symbol s => s.text.toList
  | name text => text.toList
  | int n => Decimal.wordText n
  | float x => (Value.floatText x).toList
  | string text => Reading.quote text.toList
  | separator => ['\n']

/-- What ends a statement. -/
inductive Break where
  | newline | semicolon

/-- How the end of a statement is written. -/
def Break.char : Break → Char
  | newline => '\n'
  | semicolon => ';'

/-- A statement as a text, with a space between tokens. -/
def Statement.write (s : Statement) : List Char := [' '].intercalate (s.tokens.map Token.spelling)

/-- A code block as a text; `breaks` are the ends of its statements. -/
def write : (Nat → Break) → Block → List Char
  | _, [] => []
  | _, [s] => s.write
  | breaks, s :: t :: more =>
      s.write ++ (breaks 0).char :: write (fun i => breaks (i + 1)) (t :: more)

end InfraGraph.Block
