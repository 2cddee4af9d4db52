import InfraGraph.Reading.Lexeme
import InfraGraph.Reading.Scan

/-!
# Cuts that both languages share

Gaps, words, numerals and quoted strings are cut off a text in the same way in both languages; these
differ in the characters of gaps and in the tokens that are made.

## Main results

* `cutWhile_faithful`, `cutQuoted_faithful`, `cutNumeral_append` — none of these cuts loses
  anything.
-/

namespace InfraGraph.Reading

variable {τ : Type}

/-- Cuts a character and those after it in a class; what the piece is may depend on its text. -/
def cutWhile (inClass : Char → Bool) (kind : List Char → PieceKind τ) (c : Char)
    (cs : List Char) : Piece τ × List Char :=
  let text := c :: cs.takeWhile inClass
  (⟨text, kind text⟩, cs.dropWhile inClass)

/-- Cuts a comment, which runs to the end of the line. -/
def cutComment (c : Char) (cs : List Char) : Piece τ × List Char :=
  cutWhile (· != '\n') (fun _ => .gap) c cs

/-- Cuts one character at which no token starts. -/
def cutStray (c : Char) (cs : List Char) : Piece τ × List Char :=
  (⟨[c], .fault (.stray [c]) [c]⟩, cs)

/-- Cuts a quoted string at its opening quote. One that is not closed is a fault as far as it could
be read. -/
def cutQuoted (string : String → τ) (quote : Char) (cs : List Char) : Piece τ × List Char :=
  let q := quoted quote cs
  let text := quote :: q.taken quote
  if q.closed then (⟨text, .token (string (String.ofList (unescape q.body)))⟩, q.rest)
  else (⟨text, .fault (.stray text) text⟩, q.rest)

/-- How a language writes numbers. -/
structure NumberRule (τ : Type) where
  int : Int64 → τ
  float : Float → τ
  /-- Whether an exponent needs no fraction before it. -/
  bareExponent : Bool
  /-- What is wrong with a numeral that is no number of the language. -/
  fault : List Char → Cause

/-- The token that a numeral with a sign before it writes. A whole one must fit into 64 bits. -/
def NumberRule.token? (rule : NumberRule τ) (n : Numeral) (text : List Char) : Option τ :=
  if n.isWhole then (Decimal.readWord? text).map rule.int
  else (Decimal.readFloat? text).map rule.float

/-- Cuts a numeral, whose sign has been read already. -/
def cutNumeral (rule : NumberRule τ) (sign cs : List Char) : Piece τ × List Char :=
  let n := numeral rule.bareExponent cs
  let text := sign ++ n.text
  match rule.token? n text with
  | some t => (⟨text, .token t⟩, n.rest)
  | none => (⟨text, .fault (rule.fault text) text⟩, n.rest)

/-! ## Nothing is lost -/

/-- Cutting a run of characters loses nothing. -/
theorem cutWhile_faithful (inClass : Char → Bool) (kind : List Char → PieceKind τ) :
    Cut.Faithful (cutWhile inClass kind) := by
  intro c cs
  simp [cutWhile]

/-- Cutting a stray character loses nothing. -/
theorem cutStray_faithful : Cut.Faithful (cutStray : Cut τ) := by
  intro c cs
  simp [cutStray]

/-- Cutting a string loses nothing. -/
theorem cutQuoted_faithful (string : String → τ) : Cut.Faithful (cutQuoted string) := by
  intro quote cs
  have h := Quoted.taken_append_rest quote cs
  unfold cutQuoted
  dsimp only
  split <;> simp [h]

theorem text_cutNumeral (rule : NumberRule τ) (sign cs : List Char) :
    (cutNumeral rule sign cs).1.text = sign ++ (numeral rule.bareExponent cs).text := by
  unfold cutNumeral
  dsimp only
  split <;> rfl

/-- Cutting a number loses nothing. -/
theorem cutNumeral_append (rule : NumberRule τ) (sign cs : List Char) :
    (cutNumeral rule sign cs).1.text ++ (cutNumeral rule sign cs).2 = sign ++ cs := by
  have h := Numeral.text_append_rest rule.bareExponent cs
  unfold cutNumeral
  dsimp only
  split <;> simp [h]

theorem text_numeral_ne_nil {bareExponent : Bool} {c : Char} (hc : c.isDigit = true)
    (cs : List Char) : (numeral bareExponent (c :: cs)).text ≠ [] := by
  simp [numeral, Numeral.text, Decimal.leadingDigits, hc]

end InfraGraph.Reading
