import InfraGraph.Proofs.Reading.Pieces
import InfraGraph.Reading.Cut
import Mathlib.Data.List.TakeWhile

/-!
# Words, quoted texts and numerals, written and cut off again

Both languages cut words, quoted texts and whole numbers in the same way. Each of them is cut off
as a whole where a token ends. A text is quoted with a backslash before every quote and backslash;
every other character stands for itself.

## Main results

* `cutWhile_append` — a word ends where the class of its characters ends.
* `cutQuoted_escape` — a quoted text is read back, whatever its characters.
* `cutNumeral_digits` — a whole number is read back.
* `CommonCut.chunk_plainWord`, `CommonCut.chunk_quote`, `CommonCut.chunk_wordText` — written words,
  quoted texts and whole numbers can stand alone, in both languages.
-/

namespace InfraGraph.Reading

open InfraGraph.Decimal (leadingDigits afterDigits isDigits readWord? wordText splitSign)

variable {τ : Type} {rest : List Char}

/-! ## Classes of characters -/

/-- A character of a class is none outside of it. -/
theorem ne_of_class {p : Char → Bool} {c d : Char} (hc : p c = true) (hd : p d = false) :
    c ≠ d := by
  rintro rfl
  rw [hc] at hd
  cases hd

/-- The codes of digits. -/
theorem toNat_of_isDigit {c : Char} (hc : c.isDigit = true) : 48 ≤ c.toNat ∧ c.toNat ≤ 57 := by
  simp only [Char.isDigit, Bool.and_eq_true, decide_eq_true_eq, ge_iff_le,
    UInt32.le_iff_toNat_le] at hc
  exact hc

/-- The codes of ASCII letters, and of the underscore. -/
theorem toNat_of_startsWord {c : Char} (hc : startsWord c = true) :
    (65 ≤ c.toNat ∧ c.toNat ≤ 90) ∨ (97 ≤ c.toNat ∧ c.toNat ≤ 122) ∨ c.toNat = 95 := by
  have hclass : (decide (c.val ≥ 65 ∧ c.val ≤ 90) ||
      (decide (c.val ≥ 97) && decide (c.val ≤ 122)) || decide (c = '_')) = true := hc
  simp only [Bool.or_eq_true, Bool.and_eq_true, decide_eq_true_eq, ge_iff_le,
    UInt32.le_iff_toNat_le] at hclass
  rcases hclass with (hupper | hlower) | rfl
  · exact .inl hupper
  · exact .inr (.inl hlower)
  · exact .inr (.inr rfl)

/-- No word begins with a digit. -/
theorem startsWord_of_isDigit {c : Char} (hc : c.isDigit = true) : startsWord c = false := by
  have hdigit := toNat_of_isDigit hc
  rw [← Bool.not_eq_true]
  intro hword
  have hletter := toNat_of_startsWord hword
  omega

/-- A run ends where another character follows. -/
theorem takeWhile_append_of_stop {p : Char → Bool} {cs : List Char} (hcs : ∀ c ∈ cs, p c = true)
    (hrest : ∀ c more, rest = c :: more → p c = false) : (cs ++ rest).takeWhile p = cs := by
  rw [List.takeWhile_append_of_pos hcs]
  cases rest with
  | nil => simp
  | cons c more => simp [hrest c more rfl]

theorem dropWhile_append_of_stop {p : Char → Bool} {cs : List Char} (hcs : ∀ c ∈ cs, p c = true)
    (hrest : ∀ c more, rest = c :: more → p c = false) : (cs ++ rest).dropWhile p = rest := by
  rw [List.dropWhile_append_of_pos hcs]
  cases rest with
  | nil => rfl
  | cons c more => simp [hrest c more rfl]

/-- A run is cut off where another character follows. -/
theorem cutWhile_append {inClass : Char → Bool} (kind : List Char → PieceKind τ) (c : Char)
    {cs : List Char} (hcs : ∀ d ∈ cs, inClass d = true)
    (hrest : ∀ d more, rest = d :: more → inClass d = false) :
    cutWhile inClass kind c (cs ++ rest) = (⟨c :: cs, kind (c :: cs)⟩, rest) := by
  rw [cutWhile, takeWhile_append_of_stop hcs hrest, dropWhile_append_of_stop hcs hrest]

/-- A token does not go on where it ends. -/
theorem Ends.stops {p : Char → Bool} (h : Ends rest) (hspace : p ' ' = false)
    (hnewline : p '\n' = false) (hsemicolon : p ';' = false) :
    ∀ c more, rest = c :: more → p c = false := by
  intro c more hcons
  rcases h c more hcons with rfl | rfl | rfl
  · exact hspace
  · exact hnewline
  · exact hsemicolon

/-- A space is a gap of its own unless a further blank follows. -/
theorem cutWhile_blank {isGap : Char → Bool} {c : Char} (hc : isGap c = false)
    (more : List Char) :
    cutWhile isGap (fun _ => .gap) ' ' (c :: more) = ((blank : Piece τ), c :: more) := by
  rw [cutWhile, List.takeWhile_cons, hc, List.dropWhile_cons, hc]
  rfl

/-! ## Words -/

/-- Whether a text is a word and none of the reserved ones. -/
def isPlainWord (reserved : List String) (text : String) : Bool :=
  match text.toList with
  | [] => false
  | c :: cs => startsWord c && cs.all continuesWord && !reserved.contains text

/-- A plain word begins like a word, goes on like one, and is not reserved. -/
theorem isPlainWord_eq_true_iff {reserved : List String} {text : String} :
    isPlainWord reserved text = true ↔
      ∃ c cs, text.toList = c :: cs ∧ startsWord c = true ∧ (∀ d ∈ cs, continuesWord d = true) ∧
        text ∉ reserved := by
  unfold isPlainWord
  cases text.toList with
  | nil => simp
  | cons c cs => simp [and_assoc]

/-! ## Quoted texts -/

/-- A text as it is written between double quotes. -/
def escape : List Char → List Char
  | [] => []
  | c :: cs => if c = '"' ∨ c = '\\' then '\\' :: c :: escape cs else c :: escape cs

/-- A text in double quotes. -/
def quote (cs : List Char) : List Char := '"' :: (escape cs ++ ['"'])

private theorem unescape_escape (cs : List Char) : unescape (escape cs) = cs := by
  induction cs with
  | nil => rfl
  | cons c cs ih =>
      rw [escape]
      by_cases hc : c = '"' ∨ c = '\\'
      · rw [if_pos hc, unescape, ih]
        rcases hc with rfl | rfl <;> rfl
      · rw [if_neg hc]
        have hback : c ≠ '\\' := fun h => hc (Or.inr h)
        rw [unescape, ih]
        rintro d ds rfl
        exact fun _ => hback rfl

/-- What may stand between quotes: a backslash takes the next character with it. -/
inductive QuotedBody (quote : Char) : List Char → Prop
  | nil : QuotedBody quote []
  | plain {c : Char} {cs : List Char} (hquote : c ≠ quote) (hback : c ≠ '\\')
      (h : QuotedBody quote cs) : QuotedBody quote (c :: cs)
  | escaped {c : Char} {cs : List Char} (hc : c ≠ '\n') (h : QuotedBody quote cs) :
      QuotedBody quote ('\\' :: c :: cs)

/-- What stands between quotes is the body of a string. -/
theorem quoted_of_body {quote : Char} (hquote : quote ≠ '\\') {body : List Char}
    (h : QuotedBody quote body) (rest : List Char) :
    quoted quote (body ++ quote :: rest) = ⟨body, true, rest⟩ := by
  induction h with
  | nil =>
      rw [List.nil_append, quoted.eq_def]
      exact if_pos rfl
  | plain hc hback _ ih =>
      rw [List.cons_append, quoted.eq_def]
      dsimp only
      rw [if_neg hc, if_neg hback, ih]
  | escaped hc _ ih =>
      rw [List.cons_append, List.cons_append, quoted.eq_def]
      dsimp only
      rw [if_neg (Ne.symm hquote), if_pos rfl, if_neg hc, ih]

/-- What is read up to a closing quote may stand between quotes. -/
theorem quotedBody_of_closed {quote : Char} {cs : List Char}
    (hclosed : (quoted quote cs).closed = true) : QuotedBody quote (quoted quote cs).body := by
  fun_induction quoted quote cs with
  | case1 => cases hclosed
  | case2 => exact .nil
  | case3 => cases hclosed
  | case4 => cases hclosed
  | case5 d ds hd q hquote ih => exact .escaped hd (ih hclosed)
  | case6 c cs hquote hback q ih => exact .plain hquote hback (ih hclosed)

private theorem quotedBody_escape (cs : List Char) : QuotedBody '"' (escape cs) := by
  induction cs with
  | nil => exact .nil
  | cons c cs ih =>
      rw [escape]
      by_cases hc : c = '"' ∨ c = '\\'
      · have hnewline : c ≠ '\n' := by
          rcases hc with rfl | rfl <;> decide
        rw [if_pos hc]
        exact .escaped hnewline ih
      · rw [if_neg hc]
        exact .plain (fun h => hc (.inl h)) (fun h => hc (.inr h)) ih

private theorem quoted_escape (cs : List Char) :
    quoted '"' (escape cs ++ '"' :: rest) = ⟨escape cs, true, rest⟩ :=
  quoted_of_body (by decide) (quotedBody_escape cs) rest

/-- A string is read back from its escaped form. -/
theorem cutQuoted_escape (string : String → τ) (cs : List Char) :
    cutQuoted string '"' (escape cs ++ '"' :: rest) =
      (⟨quote cs, .token (string (String.ofList cs))⟩, rest) := by
  rw [cutQuoted, quoted_escape, if_pos rfl, unescape_escape]
  rfl

/-! ## Whole numbers -/

/-- What follows does not go on with a number. -/
def EndsNumber (rest : List Char) : Prop :=
  ∀ c more, rest = c :: more → c.isDigit = false ∧ c ≠ '.' ∧ c ≠ 'e' ∧ c ≠ 'E'

private theorem Ends.endsNumber (h : Ends rest) : EndsNumber rest := by
  intro c more hcons
  rcases h c more hcons with rfl | rfl | rfl
  · decide
  · decide
  · decide

/-- Digits are a numeral without fraction and exponent. -/
theorem numeral_digits {ds : List Char} (hds : ∀ d ∈ ds, d.isDigit = true)
    (hrest : EndsNumber rest) (bareExponent : Bool) :
    numeral bareExponent (ds ++ rest) = ⟨ds, [], [], rest⟩ := by
  have hstop : ∀ c more, rest = c :: more → c.isDigit = false := fun c more h =>
    (hrest c more h).1
  have hafter : afterDigits (ds ++ rest) = rest := dropWhile_append_of_stop hds hstop
  have hfraction : splitFraction rest = ([], rest) := by
    unfold splitFraction
    split
    · rename_i more
      exact absurd rfl (hrest '.' more rfl).2.1
    · rfl
  have hexponent : splitExponent rest = ([], rest) := by
    unfold splitExponent
    split
    · rename_i mark sign more
      have hmark : ¬ (mark = 'e' ∨ mark = 'E') := not_or.2 (hrest mark _ rfl).2.2
      rw [if_neg hmark]
    · rfl
  rw [numeral, hafter, hfraction]
  dsimp only
  rw [hexponent, leadingDigits, takeWhile_append_of_stop hds hstop]
  simp

private theorem isDigits_digits (n : Nat) : isDigits (Decimal.digits n) = true := by
  rw [isDigits, Bool.and_eq_true, List.all_eq_true]
  refine ⟨?_, fun c hc => Decimal.isDigit_of_mem_digits hc⟩
  simpa using Decimal.digits_ne_nil n

/-- The digits of a whole number carry no sign. -/
theorem splitSign_digits (n : Nat) : splitSign (Decimal.digits n) = (false, Decimal.digits n) := by
  have hmem : ∀ c ∈ Decimal.digits n, c.isDigit = true := fun c hc =>
    Decimal.isDigit_of_mem_digits hc
  generalize Decimal.digits n = ds at hmem
  unfold splitSign
  split
  · exact absurd (hmem '-' List.mem_cons_self) (by decide)
  · exact absurd (hmem '+' List.mem_cons_self) (by decide)
  · rfl

/-- A word is read back from its text. -/
theorem readWord?_wordText (w : Int64) : readWord? (wordText w) = some w := by
  rw [wordText, Decimal.intText]
  split
  · rename_i hneg
    have hsplit : splitSign ('-' :: Decimal.digits w.toInt.natAbs) =
        (true, Decimal.digits w.toInt.natAbs) := rfl
    rw [readWord?, hsplit]
    dsimp only
    rw [if_pos (isDigits_digits _), Decimal.valueOf_digits, if_pos rfl]
    exact Decimal.narrow?_eq_some_iff.2 (by omega)
  · rename_i hpos
    rw [readWord?, splitSign_digits]
    dsimp only
    rw [if_pos (isDigits_digits _), Decimal.valueOf_digits, if_neg (by decide)]
    exact Decimal.narrow?_eq_some_iff.2 (by omega)

/-- The digits of a number are cut off as this number. -/
theorem cutNumeral_digits (rule : NumberRule τ) (sign : List Char) {n : Nat} {w : Int64}
    (hw : wordText w = sign ++ Decimal.digits n) (hrest : Ends rest) :
    cutNumeral rule sign (Decimal.digits n ++ rest) =
      (⟨wordText w, .token (rule.int w)⟩, rest) := by
  rw [cutNumeral, numeral_digits (fun c hc => Decimal.isDigit_of_mem_digits hc) hrest.endsNumber]
  have htoken : rule.token? ⟨Decimal.digits n, [], [], rest⟩ (wordText w) =
      some (rule.int w) := by
    have hwhole : Numeral.isWhole ⟨Decimal.digits n, [], [], rest⟩ = true := rfl
    rw [NumberRule.token?, if_pos hwhole, readWord?_wordText]
    rfl
  simp only [Numeral.text, List.append_nil, ← hw, htoken]

/-! ## Both languages -/

/-- What both languages cut in the same way, and after a space. -/
structure CommonCut (cut : Cut τ) (ofWord : List Char → τ) (string : String → τ)
    (rule : NumberRule τ) : Prop where
  word : ∀ {c : Char} (cs : List Char), startsWord c = true →
    cut c cs = cutWhile continuesWord (fun text => .token (ofWord text)) c cs
  quoted : ∀ cs : List Char, cut '"' cs = cutQuoted string '"' cs
  number : ∀ {c : Char} (cs : List Char), c.isDigit = true →
    cut c cs = cutNumeral rule [] (c :: cs)
  space : ∀ {c : Char} (cs : List Char), startsWord c = true ∨ c.isDigit = true ∨ c = '"' →
    cut ' ' (c :: cs) = (blank, c :: cs)

namespace CommonCut

variable {cut : Cut τ} {ofWord : List Char → τ} {string : String → τ} {rule : NumberRule τ}

/-- A word is cut off where it does not go on. -/
theorem cut_word (h : CommonCut cut ofWord string rule) {c : Char} {cs : List Char}
    (hc : startsWord c = true) (hcs : ∀ d ∈ cs, continuesWord d = true)
    (hrest : ∀ d more, rest = d :: more → continuesWord d = false) :
    cut c (cs ++ rest) = (⟨c :: cs, .token (ofWord (c :: cs))⟩, rest) := by
  rw [h.word _ hc]
  exact cutWhile_append _ c hcs hrest

/-- A word can stand alone. -/
theorem chunk_word (h : CommonCut cut ofWord string rule) (c : Char) (cs : List Char)
    (hc : startsWord c = true) (hcs : ∀ d ∈ cs, continuesWord d = true) :
    Chunk cut [⟨c :: cs, .token (ofWord (c :: cs))⟩] :=
  chunk_of_cut c cs rfl (fun more => h.space more (.inl hc)) fun _ hrest =>
    h.cut_word hc hcs (hrest.stops rfl rfl rfl)

theorem chunk_plainWord (h : CommonCut cut ofWord string rule) {reserved : List String}
    {text : String} {t : τ} (htext : isPlainWord reserved text = true)
    (ht : ofWord text.toList = t) : Chunk cut [⟨text.toList, .token t⟩] := by
  obtain ⟨c, cs, hcons, hc, hcs, -⟩ := isPlainWord_eq_true_iff.1 htext
  rw [← ht, hcons]
  exact h.chunk_word c cs hc hcs

/-- A string in quotes can stand alone. -/
theorem chunk_quote (h : CommonCut cut ofWord string rule) (text : String) :
    Chunk cut [⟨quote text.toList, .token (string text)⟩] := by
  refine chunk_of_cut '"' (escape text.toList ++ ['"']) rfl
    (fun more => h.space more (.inr (.inr rfl))) fun rest _ => ?_
  rw [h.quoted, List.append_assoc, List.singleton_append, cutQuoted_escape, String.ofList_toList]

/-- A number that is not negative can stand alone. -/
theorem chunk_wordText (h : CommonCut cut ofWord string rule) {n : Int64} (hn : 0 ≤ n.toInt) :
    Chunk cut [⟨wordText n, .token (rule.int n)⟩] := by
  have hdigits : wordText n = Decimal.digits n.toInt.natAbs := by
    rw [wordText, Decimal.intText, if_neg (by omega)]
  obtain ⟨c, cs, hcons⟩ := List.exists_cons_of_ne_nil (Decimal.digits_ne_nil n.toInt.natAbs)
  have hc : c.isDigit = true := Decimal.isDigit_of_mem_digits (hcons ▸ List.mem_cons_self)
  refine chunk_of_cut c cs (hdigits.trans hcons)
    (fun more => h.space more (.inr (.inl hc))) fun rest hrest => ?_
  rw [h.number _ hc, ← List.cons_append, ← hcons]
  exact cutNumeral_digits rule [] hdigits hrest

end CommonCut

end InfraGraph.Reading
