import InfraGraph.Decimal.Read
import InfraGraph.Proofs.Reading.Spelling
import InfraGraph.Value.Json

/-!
# A reader of JSON

What is published is read by programs that know nothing of values but the JSON standard. This reader
stands for them: it reads every text of RFC 8259, with blanks, all escapes and surrogate pairs, and
keeps the members of an object in order. A number without fraction and exponent is an integer if it
fits into 64 bits, and every other number is a floating-point number.

Readers take the text from the front and give what is left of it. Those that repeat or nest take a
bound; the length of the text is enough, since every repetition takes a character.

## Main results

* `readString_jsonString` — every string is read back, whatever its characters.
* `readNumber_wordText` — integers are read back exactly.
-/

namespace InfraGraph.Value

open InfraGraph.Decimal (wordText digits)
open InfraGraph.Reading (Numeral numeral)

variable {α : Type}

/-! ## A reader of JSON -/

/-- The blanks of JSON. -/
def isJsonBlank (c : Char) : Bool := c = ' ' || c = '\t' || c = '\n' || c = '\r'

/-- What is left of a text behind the blanks at its start. -/
def afterBlanks (cs : List Char) : List Char := cs.dropWhile isJsonBlank

/-- The value of a hexadecimal digit, small or capital. -/
def hexValue? (c : Char) : Option Nat :=
  if '0' ≤ c ∧ c ≤ '9' then some (c.toNat - 48)
  else if 'a' ≤ c ∧ c ≤ 'f' then some (c.toNat - 87)
  else if 'A' ≤ c ∧ c ≤ 'F' then some (c.toNat - 55)
  else none

/-- Reads four hexadecimal digits. -/
def readUnit : List Char → Option (Nat × List Char)
  | a :: b :: c :: d :: rest => do
    let a ← hexValue? a
    let b ← hexValue? b
    let c ← hexValue? c
    let d ← hexValue? d
    return (((a * 16 + b) * 16 + c) * 16 + d, rest)
  | _ => none

/-- Reads a character by its code in UTF-16, behind the first `\u`. A high surrogate needs a low one
behind it. -/
def readCode (cs : List Char) : Option (Char × List Char) := do
  let (unit, rest) ← readUnit cs
  if 0xD800 ≤ unit ∧ unit < 0xDC00 then
    match rest with
    | '\\' :: 'u' :: more => do
      let (low, rest) ← readUnit more
      if 0xDC00 ≤ low ∧ low < 0xE000 then
        return (Char.ofNat (0x10000 + (unit - 0xD800) * 0x400 + (low - 0xDC00)), rest)
      else none
    | _ => none
  else if 0xDC00 ≤ unit ∧ unit < 0xE000 then none
  else return (Char.ofNat unit, rest)

/-- Reads an escape behind its backslash. -/
def readEscape : List Char → Option (Char × List Char)
  | [] => none
  | c :: rest =>
    if c = '"' ∨ c = '\\' ∨ c = '/' then some (c, rest)
    else if c = 'b' then some (Char.ofNat 8, rest)
    else if c = 'f' then some (Char.ofNat 12, rest)
    else if c = 'n' then some ('\n', rest)
    else if c = 'r' then some ('\r', rest)
    else if c = 't' then some ('\t', rest)
    else if c = 'u' then readCode rest
    else none

/-- Reads a character of a string. Control characters must be escaped. -/
def readChar : List Char → Option (Char × List Char)
  | [] => none
  | c :: rest =>
    if c = '\\' then readEscape rest
    else if c.toNat < 32 then none
    else some (c, rest)

/-- Reads the characters of a string and its closing quote. -/
def readChars : Nat → List Char → Option (List Char × List Char)
  | 0, _ => none
  | _ + 1, [] => none
  | n + 1, c :: rest =>
    if c = '"' then some ([], rest)
    else do
      let (d, rest) ← readChar (c :: rest)
      let (more, rest) ← readChars n rest
      return (d :: more, rest)

/-- Reads a string behind its opening quote. -/
def readString (cs : List Char) : Option (String × List Char) := do
  let (text, rest) ← readChars cs.length cs
  return (String.ofList text, rest)

/-- Whether digits can stand before the point: there is one, and only zero begins with zero. -/
def isWholePart (ds : List Char) : Bool := !ds.isEmpty && (ds = ['0'] || ds.head? != some '0')

/-- Reads a number behind its sign. -/
def readUnsigned (sign cs : List Char) : Option (Value × List Char) :=
  let n := numeral true cs
  let text := sign ++ n.text
  let whole? := if n.isWhole then (Decimal.readWord? text).map Value.int else none
  if isWholePart n.whole then
    (whole?.or ((Decimal.readFloat? text).map Value.float)).map fun v => (v, n.rest)
  else none

/-- Reads a number. -/
def readNumber : List Char → Option (Value × List Char)
  | [] => none
  | c :: cs => if c = '-' then readUnsigned [c] cs else readUnsigned [] (c :: cs)

/-- The words of JSON and what they mean. -/
def jsonWords : List (List Char × Value) :=
  [("null".toList, .null), ("true".toList, .bool true), ("false".toList, .bool false)]

/-- Reads a word. -/
def readWord (cs : List Char) : Option (Value × List Char) :=
  (jsonWords.find? fun w => w.1.isPrefixOf cs).map fun w => (w.2, cs.drop w.1.length)

/-- Reads parts with commas between them and the closing mark behind them. -/
def readParts (part : List Char → Option (α × List Char)) (closing : Char) :
    Nat → List Char → Option (List α × List Char)
  | 0, _ => none
  | n + 1, cs => do
    let (a, rest) ← part cs
    match afterBlanks rest with
    | [] => none
    | c :: rest =>
      if c = ',' then
        let (more, rest) ← readParts part closing n rest
        return (a :: more, rest)
      else if c = closing then return ([a], rest)
      else none

/-- Reads parts with commas between them, if there are any, and the closing mark. -/
def readEnclosed (part : List Char → Option (α × List Char)) (closing : Char) (n : Nat)
    (cs : List Char) : Option (List α × List Char) :=
  match afterBlanks cs with
  | [] => none
  | c :: rest => if c = closing then some ([], rest) else readParts part closing n (c :: rest)

/-- Reads a member of an object. -/
def readMember (value : List Char → Option (Value × List Char)) (cs : List Char) :
    Option ((String × Value) × List Char) :=
  match afterBlanks cs with
  | '"' :: rest => do
    let (key, rest) ← readString rest
    match afterBlanks rest with
    | ':' :: rest => do
      let (v, rest) ← value rest
      return ((key, v), rest)
    | _ => none
  | _ => none

/-- Reads a value whose parts nest less deeply than the bound. -/
def readValue : Nat → List Char → Option (Value × List Char)
  | 0, _ => none
  | n + 1, cs =>
    match afterBlanks cs with
    | [] => none
    | c :: rest =>
      if c = '"' then (readString rest).map fun r => (.string r.1, r.2)
      else if c = '[' then (readEnclosed (readValue n) ']' n rest).map fun r => (.list r.1, r.2)
      else if c = '\x7b' then
        (readEnclosed (readMember (readValue n)) '\x7d' n rest).map fun r => (.map r.1, r.2)
      else (readWord (c :: rest)).or (readNumber (c :: rest))

/-- The value that a JSON text writes. -/
def readJson (text : String) : Option Value := do
  let (v, rest) ← readValue (text.length + 1) text.toList
  if (afterBlanks rest).isEmpty then return v else none

/-! ## Strings -/

theorem afterBlanks_cons {c : Char} (hc : isJsonBlank c = false) (cs : List Char) :
    afterBlanks (c :: cs) = c :: cs := by
  rw [afterBlanks, List.dropWhile_cons, hc]
  rfl

private theorem hexValue?_hexDigit {n : Nat} (h : n < 16) : hexValue? (hexDigit n) = some n := by
  have hall : ∀ k < 16, hexValue? (hexDigit k) = some k := by decide
  exact hall n h

/-- A control character is read back from its code. -/
theorem readCode_control {c : Char} (hc : c.toNat < 32) (rest : List Char) :
    readCode ('0' :: '0' :: hexDigit (c.toNat / 16) :: hexDigit (c.toNat % 16) :: rest) =
      some (c, rest) := by
  have hhigh : hexValue? (hexDigit (c.toNat / 16)) = some (c.toNat / 16) :=
    hexValue?_hexDigit (by omega)
  have hlow : hexValue? (hexDigit (c.toNat % 16)) = some (c.toNat % 16) :=
    hexValue?_hexDigit (by omega)
  have hzero : hexValue? '0' = some 0 := by decide
  have hunit : readUnit
      ('0' :: '0' :: hexDigit (c.toNat / 16) :: hexDigit (c.toNat % 16) :: rest) =
        some (c.toNat, rest) := by
    have hsum : ((0 * 16 + 0) * 16 + c.toNat / 16) * 16 + c.toNat % 16 = c.toNat := by omega
    simp only [readUnit, hzero, hhigh, hlow, Option.bind_eq_bind, Option.bind_some, hsum]
    rfl
  have hnot : ¬ (0xD800 ≤ c.toNat ∧ c.toNat < 0xDC00) := by omega
  have hnot' : ¬ (0xDC00 ≤ c.toNat ∧ c.toNat < 0xE000) := by omega
  simp only [readCode, hunit, Option.bind_eq_bind, Option.bind_some, if_neg hnot, if_neg hnot',
    Char.ofNat_toNat]
  rfl

/-- Every character of a string is read back. -/
theorem readChar_jsonChar (c : Char) (rest : List Char) :
    readChar (jsonChar c ++ rest) = some (c, rest) := by
  unfold jsonChar
  by_cases hquote : c = '"'
  · subst hquote
    rfl
  rw [if_neg hquote]
  by_cases hback : c = '\\'
  · subst hback
    rfl
  rw [if_neg hback]
  by_cases hnewline : c = '\n'
  · subst hnewline
    rfl
  rw [if_neg hnewline]
  by_cases htab : c = '\t'
  · subst htab
    rfl
  rw [if_neg htab]
  by_cases hreturn : c = '\r'
  · subst hreturn
    rfl
  rw [if_neg hreturn]
  by_cases hbell : c = Char.ofNat 8
  · subst hbell
    rfl
  rw [if_neg hbell]
  by_cases hfeed : c = Char.ofNat 12
  · subst hfeed
    rfl
  rw [if_neg hfeed]
  by_cases hcontrol : c.toNat < 32
  · rw [if_pos hcontrol]
    exact readCode_control hcontrol rest
  · rw [if_neg hcontrol]
    show readChar (c :: rest) = some (c, rest)
    rw [readChar, if_neg hback, if_neg hcontrol]

/-- What is written of a character does not begin with a quote. -/
theorem exists_jsonChar (c : Char) : ∃ d ds, jsonChar c = d :: ds ∧ d ≠ '"' := by
  unfold jsonChar
  by_cases hquote : c = '"'
  · exact ⟨_, _, if_pos hquote, by decide⟩
  rw [if_neg hquote]
  repeat' split
  all_goals first
    | exact ⟨_, _, rfl, by decide⟩
    | exact ⟨c, [], rfl, hquote⟩

private theorem readChars_jsonChars {cs : List Char} {n : Nat} (hn : cs.length < n)
    (rest : List Char) :
    readChars n (cs.flatMap jsonChar ++ '"' :: rest) = some (cs, rest) := by
  induction cs generalizing n with
  | nil =>
      obtain ⟨m, rfl⟩ : ∃ m, n = m + 1 := ⟨n - 1, by simp at hn; omega⟩
      rfl
  | cons c cs ih =>
      rw [List.length_cons] at hn
      obtain ⟨m, rfl⟩ : ∃ m, n = m + 1 := ⟨n - 1, by omega⟩
      obtain ⟨d, ds, hjson, hd⟩ := exists_jsonChar c
      have hchar := readChar_jsonChar c (cs.flatMap jsonChar ++ '"' :: rest)
      rw [hjson, List.cons_append] at hchar
      rw [List.flatMap_cons, hjson, List.append_assoc, List.cons_append, readChars, if_neg hd,
        hchar]
      simp only [Option.bind_eq_bind, Option.bind_some, ih (by omega : cs.length < m)]
      rfl

/-- Every string is read back, whatever its characters. -/
theorem readString_jsonString (s : String) (rest : List Char) :
    ∃ cs, (jsonString s).toList = '"' :: cs ∧ readString (cs ++ rest) = some (s, rest) := by
  refine ⟨s.toList.flatMap jsonChar ++ ['"'], by simp [jsonString], ?_⟩
  have hlength : s.toList.length ≤ (s.toList.flatMap jsonChar).length := by
    generalize s.toList = cs
    induction cs with
    | nil => exact Nat.le_refl 0
    | cons c cs ih =>
        obtain ⟨d, ds, hjson, -⟩ := exists_jsonChar c
        rw [List.flatMap_cons, hjson, List.length_append, List.length_cons, List.length_cons]
        omega
  have hbound : s.toList.length < (s.toList.flatMap jsonChar ++ '"' :: rest).length := by
    rw [List.length_append, List.length_cons]
    omega
  have hchars := readChars_jsonChars hbound rest
  rw [List.append_assoc, List.singleton_append, readString, hchars]
  simp

/-! ## Integers -/

theorem exists_digits (n : Nat) : ∃ d ds, digits n = d :: ds ∧ d.isDigit = true := by
  cases hn : digits n with
  | nil => exact absurd hn (Decimal.digits_ne_nil n)
  | cons d ds => exact ⟨d, ds, rfl, Decimal.isDigit_of_mem_digits (hn ▸ List.mem_cons_self)⟩

/-- Only zero begins with the digit zero. -/
theorem head?_digits {n : Nat} (hpos : 0 < n) : (digits n).head? ≠ some '0' := by
  induction n using Nat.strongRecOn with
  | ind n ih =>
      rw [digits]
      by_cases hn : n < 10
      · have hall : ∀ k < 10, 0 < k → Decimal.digitChar k ≠ '0' := by decide
        rw [if_pos hn]
        simpa using hall n hn hpos
      · have htenth := ih (n / 10) (by omega) (by omega)
        obtain ⟨d, ds, hds, -⟩ := exists_digits (n / 10)
        rw [hds] at htenth
        rw [if_neg hn, hds]
        exact htenth

private theorem isWholePart_digits (n : Nat) : isWholePart (digits n) = true := by
  by_cases hn : n = 0
  · subst hn
    rw [digits]
    decide
  · have hhead := head?_digits (by omega : 0 < n)
    have hne := Decimal.digits_ne_nil n
    simp [isWholePart, hhead, hne]

private theorem readUnsigned_digits {sign rest : List Char} {n : Nat} {w : Int64}
    (hw : wordText w = sign ++ digits n) (hrest : Reading.EndsNumber rest) :
    readUnsigned sign (digits n ++ rest) = some (.int w, rest) := by
  have hnumeral := Reading.numeral_digits
    (fun d hd => Decimal.isDigit_of_mem_digits hd : ∀ d ∈ digits n, d.isDigit = true) hrest true
  have hwhole : Numeral.isWhole ⟨digits n, [], [], rest⟩ = true := rfl
  have hread := Reading.readWord?_wordText w
  simp only [readUnsigned, hnumeral, hwhole, if_true, Numeral.text, List.append_nil, ← hw, hread,
    isWholePart_digits]
  rfl

/-- Integers are read back exactly. -/
theorem readNumber_wordText (w : Int64) {rest : List Char} (hrest : Reading.EndsNumber rest) :
    readNumber (wordText w ++ rest) = some (.int w, rest) := by
  by_cases hneg : w.toInt < 0
  · have hw : wordText w = ['-'] ++ digits w.toInt.natAbs := by
      rw [wordText, Decimal.intText, if_pos hneg]
      rfl
    rw [hw]
    exact readUnsigned_digits hw hrest
  · have hw : wordText w = [] ++ digits w.toInt.natAbs := by
      rw [wordText, Decimal.intText, if_neg hneg]
      rfl
    have hread := readUnsigned_digits hw hrest
    obtain ⟨d, ds, hds, hd⟩ := exists_digits w.toInt.natAbs
    have hsign : d ≠ '-' := Reading.ne_of_class hd rfl
    rw [hw, List.nil_append]
    rw [hds] at hread ⊢
    show (if d = '-' then _ else readUnsigned [] (d :: ds ++ rest)) = _
    rw [if_neg hsign, hread]

end InfraGraph.Value
