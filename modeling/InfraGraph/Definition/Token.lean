import InfraGraph.Reading.Cut
import InfraGraph.Value.Text

/-!
# Tokens of definitions

Definitions are written with words, numbers, quoted strings, fenced code blocks and a few marks.
Blanks and comments separate tokens; a comment runs from `#` to the end of the line.

## Main results

* `cut_faithful` — cutting a text into tokens and gaps loses nothing.
-/

namespace InfraGraph.Definition

open InfraGraph.Reading

/-- The marks. -/
inductive Mark where
  | braceOpen | braceClose | parenOpen | parenClose | bracketOpen | bracketClose | comma | dot
  deriving DecidableEq, Repr, Inhabited

namespace Mark

/-- How a mark is written. -/
def char : Mark → Char
  | braceOpen => '\x7b'
  | braceClose => '\x7d'
  | parenOpen => '('
  | parenClose => ')'
  | bracketOpen => '['
  | bracketClose => ']'
  | comma => ','
  | dot => '.'

/-- The mark that a character writes. -/
def ofChar? : Char → Option Mark
  | '\x7b' => some braceOpen
  | '\x7d' => some braceClose
  | '(' => some parenOpen
  | ')' => some parenClose
  | '[' => some bracketOpen
  | ']' => some bracketClose
  | ',' => some comma
  | '.' => some dot
  | _ => none

end Mark

/-- A token. -/
inductive Token where
  | mark (m : Mark)
  | bool (b : Bool)
  | word (text : String)
  | string (text : String)
  | int (n : Int64)
  | float (x : Float)
  /-- A code block, with what stands between the fences. -/
  | code (body : String)
  deriving Inhabited

namespace Token

/-- How a token is described in messages. -/
def describe : Token → String
  | mark m => String.ofList ['\'', m.char, '\'']
  | bool b => "boolean " ++ (if b then "true" else "false")
  | word text => "identifier '" ++ text ++ "'"
  | string text => "string \"" ++ text ++ "\""
  | int n => "number " ++ Value.intText n
  | float x => "number " ++ Value.floatText x
  | code _ => "code block"

/-- The token that a word writes: the truth values are written small or with a capital. -/
def ofWord (text : List Char) : Token :=
  match String.ofList text with
  | "true" | "True" => bool true
  | "false" | "False" => bool false
  | s => word s

/-! ## Cutting -/

/-- The blanks between tokens. -/
def isGap (c : Char) : Bool := c = ' ' || c = '\t' || c = '\n' || c = '\r' || c = '\x0c'

/-- Numbers may have a sign, and an exponent needs no fraction before it. -/
def numberRule : NumberRule Token where
  int := int
  float := float
  bareExponent := true
  fault := .badNumber

/-- Cuts a code block at its first backtick. An open block takes the rest of the text. -/
def cutCode (c : Char) (cs : List Char) : Piece Token × List Char :=
  if fence.isPrefixOf (c :: cs) then
    match untilFence (cs.drop 2) with
    | some (body, rest) => (⟨fence ++ body ++ fence, .token (code (String.ofList body))⟩, rest)
    | none => (⟨c :: cs, .fault .openCode fence⟩, [])
  else cutStray c cs

/-- Cuts the first piece off a text. -/
def cut : Cut Token := fun c cs =>
  if isGap c then cutWhile isGap (fun _ => .gap) c cs
  else if c = '#' then cutComment c cs
  else if startsWord c then cutWhile continuesWord (fun text => .token (ofWord text)) c cs
  else if c = '"' ∨ c = '\'' then cutQuoted string c cs
  else if c.isDigit then cutNumeral numberRule [] (c :: cs)
  else if c = '-' then
    if (Decimal.leadingDigits cs).isEmpty then (⟨[c], .fault (.badNumber [c]) [c]⟩, cs)
    else cutNumeral numberRule [c] cs
  else if c = '\x60' then cutCode c cs
  else
    match Mark.ofChar? c with
    | some m => (⟨[c], .token (mark m)⟩, cs)
    | none => cutStray c cs

theorem cutCode_faithful : Cut.Faithful cutCode := by
  intro c cs
  unfold cutCode
  split
  · rename_i hp
    obtain ⟨rest, hr⟩ := List.isPrefixOf_iff_prefix.1 hp
    split
    · rename_i h
      have hbody := untilFence_eq_some h
      rw [← hr]
      simp only [fence, List.cons_append, List.nil_append, List.cons.injEq] at hr
      obtain ⟨-, rfl⟩ := hr
      simp only [List.drop_succ_cons, List.drop_zero] at hbody
      simp [hbody, fence]
    · simp
  · exact cutStray_faithful c cs

/-- Cutting a definition into pieces loses nothing. -/
theorem cut_faithful : Cut.Faithful cut := by
  intro c cs
  unfold cut
  split
  · exact cutWhile_faithful isGap _ c cs
  split
  · exact cutWhile_faithful (· != '\n') _ c cs
  split
  · exact cutWhile_faithful continuesWord _ c cs
  split
  · exact cutQuoted_faithful string c cs
  split
  · rename_i hd
    refine ⟨cutNumeral_append numberRule [] (c :: cs), ?_⟩
    simpa [text_cutNumeral] using text_numeral_ne_nil hd cs
  split
  · split
    · simp
    · exact ⟨cutNumeral_append numberRule [c] cs, by simp [text_cutNumeral]⟩
  split
  · exact cutCode_faithful c cs
  · split
    · simp
    · exact cutStray_faithful c cs

/-- The tokens of a text, or its faults. -/
def lexemes (text : List Char) : Except (List SyntaxError) (List (Lexeme Token)) :=
  Reading.lexemes cut text

end Token

end InfraGraph.Definition
