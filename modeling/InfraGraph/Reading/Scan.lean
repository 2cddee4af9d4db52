import InfraGraph.Decimal.Read

/-!
# Scanning: words, numerals and quoted texts

The two languages share the shape of words, numerals and quoted texts. Every scanner splits a text
into the part it takes and what is left, and takes as much as it can.

## Main results

* `Numeral.text_append_rest`, `Quoted.taken_append_rest` — nothing is lost by a scan.
* `untilFence_eq_some` — a code body is what stands before the first fence.
-/

namespace InfraGraph.Reading

open InfraGraph.Decimal (leadingDigits afterDigits)

/-! ## Words -/

/-- The characters that a word may start with: ASCII letters and the underscore. -/
def startsWord (c : Char) : Bool := c.isAlpha || c = '_'

/-- The characters that a word may go on with: also ASCII digits. -/
def continuesWord (c : Char) : Bool := startsWord c || c.isDigit

/-! ## Numerals -/

/-- A numeral at the start of a text, split into its parts, and what is left. -/
structure Numeral where
  whole : List Char
  /-- The point and the digits after it, or nothing. -/
  fraction : List Char
  /-- The mark, the sign and the digits of the exponent, or nothing. -/
  exponent : List Char
  rest : List Char

namespace Numeral

/-- All the characters of a numeral. -/
def text (n : Numeral) : List Char := n.whole ++ n.fraction ++ n.exponent

/-- Whether a numeral has neither fraction nor exponent. -/
def isWhole (n : Numeral) : Bool := n.fraction.isEmpty && n.exponent.isEmpty

end Numeral

/-- A point with digits after it at the start of a text, and what is left. -/
def splitFraction : List Char → List Char × List Char
  | '.' :: cs =>
    if (leadingDigits cs).isEmpty then ([], '.' :: cs)
    else ('.' :: leadingDigits cs, afterDigits cs)
  | cs => ([], cs)

/-- An exponent at the start of a text, and what is left: the mark `e` or `E`, perhaps a sign, and
digits. -/
def splitExponent : List Char → List Char × List Char
  | mark :: sign :: cs =>
    if mark = 'e' ∨ mark = 'E' then
      if sign = '+' ∨ sign = '-' then
        if (leadingDigits cs).isEmpty then ([], mark :: sign :: cs)
        else (mark :: sign :: leadingDigits cs, afterDigits cs)
      else if (leadingDigits (sign :: cs)).isEmpty then ([], mark :: sign :: cs)
      else (mark :: leadingDigits (sign :: cs), afterDigits (sign :: cs))
    else ([], mark :: sign :: cs)
  | cs => ([], cs)

theorem splitFraction_append (cs : List Char) :
    (splitFraction cs).1 ++ (splitFraction cs).2 = cs := by
  unfold splitFraction
  split
  · split
    · rfl
    · simp [Decimal.leadingDigits_append_afterDigits]
  · rfl

theorem splitExponent_append (cs : List Char) :
    (splitExponent cs).1 ++ (splitExponent cs).2 = cs := by
  unfold splitExponent
  split
  · split
    · split
      · split
        · rfl
        · simp [Decimal.leadingDigits_append_afterDigits]
      · split
        · rfl
        · simp [Decimal.leadingDigits_append_afterDigits]
    · rfl
  · rfl

/-- The numeral at the start of a text that starts with a digit. Where `bareExponent` is false, an
exponent needs a fraction before it. -/
def numeral (bareExponent : Bool) (cs : List Char) : Numeral :=
  let (fraction, afterFraction) := splitFraction (afterDigits cs)
  let (exponent, rest) :=
    if fraction.isEmpty && !bareExponent then ([], afterFraction) else splitExponent afterFraction
  ⟨leadingDigits cs, fraction, exponent, rest⟩

/-- A numeral and what follows it make the text. -/
theorem Numeral.text_append_rest (bareExponent : Bool) (cs : List Char) :
    (numeral bareExponent cs).text ++ (numeral bareExponent cs).rest = cs := by
  have hf := splitFraction_append (afterDigits cs)
  have he := splitExponent_append (splitFraction (afterDigits cs)).2
  have hd := Decimal.leadingDigits_append_afterDigits cs
  simp only [numeral, Numeral.text]
  split
  · simp [hf, hd]
  · simp [he, hf, hd]

/-! ## Quoted texts -/

/-- What stands after an opening quote: the characters up to the closing one as they are written,
whether there is a closing one, and what is left. -/
structure Quoted where
  body : List Char
  closed : Bool
  rest : List Char

/-- Reads on after an opening quote. A backslash takes the next character with it, whatever it is,
but no newline and not the end of the text; there the scan stops unclosed, before the backslash. -/
def quoted (quote : Char) : List Char → Quoted
  | [] => ⟨[], false, []⟩
  | c :: cs =>
    if c = quote then ⟨[], true, cs⟩
    else if c = '\\' then
      match cs with
      | [] => ⟨[], false, [c]⟩
      | d :: ds =>
        if d = '\n' then ⟨[], false, c :: d :: ds⟩
        else
          let q := quoted quote ds
          ⟨c :: d :: q.body, q.closed, q.rest⟩
    else
      let q := quoted quote cs
      ⟨c :: q.body, q.closed, q.rest⟩

namespace Quoted

/-- The characters taken after the opening quote. -/
def taken (quote : Char) (q : Quoted) : List Char := q.body ++ (if q.closed then [quote] else [])

/-- A string and what follows it make the text. -/
theorem taken_append_rest (quote : Char) (cs : List Char) :
    (quoted quote cs).taken quote ++ (quoted quote cs).rest = cs := by
  fun_induction quoted quote cs with
  | case1 => rfl
  | case2 => simp_all [taken]
  | case3 => simp_all [taken]
  | case4 => simp_all [taken]
  | case5 d ds hd q hq ih => simp_all [taken, q]
  | case6 c cs hq hb q ih => simp_all [taken, q]

end Quoted

/-- The text that a quoted body means: a backslash followed by `n`, `t` or `r` is a newline, a tab
or a carriage return; any other character after a backslash means itself. -/
def unescape : List Char → List Char
  | '\\' :: c :: cs =>
    (if c = 'n' then '\n' else if c = 't' then '\t' else if c = 'r' then '\r' else c) :: unescape cs
  | c :: cs => c :: unescape cs
  | [] => []

/-! ## Code bodies -/

/-- The mark around a code block. -/
def fence : List Char := ['\x60', '\x60', '\x60']

/-- What stands before the first fence, and what is left after it. -/
def untilFence : List Char → Option (List Char × List Char)
  | '\x60' :: '\x60' :: '\x60' :: rest => some ([], rest)
  | c :: cs => (untilFence cs).map fun (body, rest) => (c :: body, rest)
  | [] => none

/-- A body ends at a fence. -/
theorem untilFence_eq_some {cs body rest : List Char} (h : untilFence cs = some (body, rest)) :
    cs = body ++ fence ++ rest := by
  fun_induction untilFence cs generalizing body with
  | case1 rest' =>
    simp only [Option.some.injEq, Prod.mk.injEq] at h
    obtain ⟨rfl, rfl⟩ := h
    rfl
  | case2 c cs _ ih =>
    obtain ⟨⟨b, r⟩, hb, he⟩ := Option.map_eq_some_iff.1 h
    simp only [Prod.mk.injEq] at he
    obtain ⟨rfl, rfl⟩ := he
    simp [ih hb]
  | case3 => simp at h

end InfraGraph.Reading
