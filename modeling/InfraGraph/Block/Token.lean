import InfraGraph.Reading.Cut
import InfraGraph.Value.Text

/-!
# Tokens of code blocks

A code block is written with names, numbers without a sign, quoted strings, operators and brackets.
A newline and a semicolon separate statements; inside brackets they mean nothing, and several in a
row count as one.

## Main results

* `cut_faithful` — cutting a text into tokens and gaps loses nothing.
* `dropSeparators_sublist` — dropping separators changes nothing else.
-/

namespace InfraGraph.Block

open InfraGraph.Reading

/-- The words and marks with a meaning of their own. -/
inductive Symbol where
  | ifWord | thenWord | elseWord | trueWord | falseWord | nullWord
  | equal | unequal | atMost | atLeast | less | greater | both | either | bang | assign
  | plus | minus | star | slash | percent
  | dot | comma | colon
  | parenOpen | parenClose | bracketOpen | bracketClose | braceOpen | braceClose
  deriving DecidableEq, Repr, Inhabited

namespace Symbol

/-- How a symbol is written. -/
def text : Symbol → String
  | ifWord => "if"
  | thenWord => "then"
  | elseWord => "else"
  | trueWord => "true"
  | falseWord => "false"
  | nullWord => "null"
  | equal => "=="
  | unequal => "!="
  | atMost => "<="
  | atLeast => ">="
  | less => "<"
  | greater => ">"
  | both => "&&"
  | either => "||"
  | bang => "!"
  | assign => "="
  | plus => "+"
  | minus => "-"
  | star => "*"
  | slash => "/"
  | percent => "%"
  | dot => "."
  | comma => ","
  | colon => ":"
  | parenOpen => "("
  | parenClose => ")"
  | bracketOpen => "["
  | bracketClose => "]"
  | braceOpen => "\x7b"
  | braceClose => "\x7d"

/-- The symbol that two characters write. -/
def ofPair? : Char → Char → Option Symbol
  | '=', '=' => some equal
  | '!', '=' => some unequal
  | '<', '=' => some atMost
  | '>', '=' => some atLeast
  | '&', '&' => some both
  | '|', '|' => some either
  | _, _ => none

/-- The symbol that one character writes. -/
def ofChar? : Char → Option Symbol
  | '<' => some less
  | '>' => some greater
  | '!' => some bang
  | '=' => some assign
  | '+' => some plus
  | '-' => some minus
  | '*' => some star
  | '/' => some slash
  | '%' => some percent
  | '.' => some dot
  | ',' => some comma
  | ':' => some colon
  | '(' => some parenOpen
  | ')' => some parenClose
  | '[' => some bracketOpen
  | ']' => some bracketClose
  | '\x7b' => some braceOpen
  | '\x7d' => some braceClose
  | _ => none

/-- Whether a symbol opens a bracket of any kind. -/
def opens : Symbol → Bool
  | parenOpen | bracketOpen | braceOpen => true
  | _ => false

/-- Whether a symbol closes a bracket of any kind. -/
def closes : Symbol → Bool
  | parenClose | bracketClose | braceClose => true
  | _ => false

end Symbol

/-- A token. -/
inductive Token where
  | symbol (s : Symbol)
  | name (text : String)
  | int (n : Int64)
  | float (x : Float)
  | string (text : String)
  /-- The end of a statement. -/
  | separator
  deriving Inhabited

namespace Token

/-- How a token is described in messages. -/
def describe : Token → String
  | symbol s => "'" ++ s.text ++ "'"
  | name text => "name '" ++ text ++ "'"
  | int n => "number " ++ Value.intText n
  | float x => "number " ++ Value.floatText x
  | string text => "string \"" ++ text ++ "\""
  | separator => "end of statement"

/-- The token that a word writes. -/
def ofWord (text : List Char) : Token :=
  match String.ofList text with
  | "if" => symbol .ifWord
  | "then" => symbol .thenWord
  | "else" => symbol .elseWord
  | "true" => symbol .trueWord
  | "false" => symbol .falseWord
  | "null" => symbol .nullWord
  | s => name s

/-! ## Cutting -/

/-- The blanks between tokens. A newline is not one of them. -/
def isGap (c : Char) : Bool := c = ' ' || c = '\t' || c = '\r' || c = '\x0c'

/-- Numbers have no sign, and an exponent needs a fraction before it. -/
def numberRule : NumberRule Token where
  int := int
  float := float
  bareExponent := false
  fault := .stray

/-- Cuts an operator or a bracket of one character. -/
def cutChar (c : Char) (cs : List Char) : Piece Token × List Char :=
  match Symbol.ofChar? c with
  | some s => (⟨[c], .token (symbol s)⟩, cs)
  | none => cutStray c cs

/-- Cuts an operator or a bracket, a longer one first. -/
def cutSymbol (c : Char) : List Char → Piece Token × List Char
  | [] => cutChar c []
  | d :: ds =>
    match Symbol.ofPair? c d with
    | some s => (⟨[c, d], .token (symbol s)⟩, ds)
    | none => cutChar c (d :: ds)

/-- Cuts the first piece off a text. -/
def cut : Cut Token := fun c cs =>
  if isGap c then cutWhile isGap (fun _ => .gap) c cs
  else if c = '#' then cutComment c cs
  else if c = '\n' ∨ c = ';' then (⟨[c], .token separator⟩, cs)
  else if startsWord c then cutWhile continuesWord (fun text => .token (ofWord text)) c cs
  else if c = '"' ∨ c = '\'' then cutQuoted string c cs
  else if c.isDigit then cutNumeral numberRule [] (c :: cs)
  else cutSymbol c cs

theorem cutChar_faithful : Cut.Faithful cutChar := by
  intro c cs
  unfold cutChar
  split
  · simp
  · exact cutStray_faithful c cs

theorem cutSymbol_faithful : Cut.Faithful cutSymbol := by
  intro c cs
  unfold cutSymbol
  split
  · exact cutChar_faithful c []
  · split
    · simp
    · exact cutChar_faithful c _

/-- Cutting a code block into pieces loses nothing. -/
theorem cut_faithful : Cut.Faithful cut := by
  intro c cs
  unfold cut
  split
  · exact cutWhile_faithful isGap _ c cs
  split
  · exact cutWhile_faithful (· != '\n') _ c cs
  split
  · simp
  split
  · exact cutWhile_faithful continuesWord _ c cs
  split
  · exact cutQuoted_faithful string c cs
  split
  · rename_i hd
    refine ⟨cutNumeral_append numberRule [] (c :: cs), ?_⟩
    simpa [text_cutNumeral] using text_numeral_ne_nil hd cs
  · exact cutSymbol_faithful c cs

/-! ## Separators -/

/-- The bracket depth after a token. It never falls below zero, and all kinds of brackets count
alike. -/
def depthAfter (depth : Nat) : Token → Nat
  | symbol s => if s.opens then depth + 1 else if s.closes then depth - 1 else depth
  | _ => depth

/-- Drops the separators inside brackets, those at the beginning and those after another one. The
tokens start at a bracket depth; `fresh` says whether the last token kept was a separator, or there
was none. -/
def dropSeparators : Nat → Bool → List (Lexeme Token) → List (Lexeme Token)
  | _, _, [] => []
  | depth, fresh, x :: rest =>
    match x.token with
    | separator =>
      if 0 < depth ∨ fresh = true then dropSeparators depth fresh rest
      else x :: dropSeparators depth true rest
    | t => x :: dropSeparators (depthAfter depth t) false rest

/-- Dropping separators keeps the order of what is left. -/
theorem dropSeparators_sublist (depth : Nat) (fresh : Bool) (xs : List (Lexeme Token)) :
    (dropSeparators depth fresh xs).Sublist xs := by
  induction xs generalizing depth fresh with
  | nil => simp [dropSeparators]
  | cons x rest ih =>
    unfold dropSeparators
    split
    · split
      · exact (ih _ _).cons _
      · exact (ih _ _).cons_cons _
    · exact (ih _ _).cons_cons _

/-- The tokens of a code block, or its faults. -/
def lexemes (text : List Char) : Except (List SyntaxError) (List (Lexeme Token)) := do
  return dropSeparators 0 true (← Reading.lexemes cut text)

end Token

end InfraGraph.Block
