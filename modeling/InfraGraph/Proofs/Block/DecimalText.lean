import InfraGraph.Proofs.Block.Arithmetic
import InfraGraph.Proofs.Block.Errors
import InfraGraph.Proofs.Block.RoundTrip
import InfraGraph.Proofs.Text.Lines

/-!
# Integers as code

A code block may hold the decimal text of an integer and nothing else but blanks around it. The
lexer of code blocks knows no signs: a negative number is a minus and the number without its sign,
and this is negated. The number has to be an integer by itself, which the opposite of the smallest
one is not; every other integer is what the block with its text gives.

## Main results

* `normalize_wordText` — blanks around a number are taken off.
* `read_wordText` — the text of an integer is read as `Expr.ofInt`.
* `evaluateText_wordText` — and gives this integer.
* `evaluateText_minValue` — the text of the smallest integer is not read.
-/

namespace InfraGraph.Block

open Decimal (digits wordText)
open Reading (CutsOff Flawless Lexeme Piece lexemesFrom tokenPiece)
open Text (isBlank trim)

/-! ## Decimal texts -/

/-- The text of an integer consists of digits and perhaps a minus. -/
theorem mem_wordText {n : Int64} {c : Char} (hc : c ∈ wordText n) :
    c = '-' ∨ c.isDigit = true := by
  rw [wordText, Decimal.intText] at hc
  split at hc
  · exact (List.mem_cons.1 hc).imp_right Decimal.isDigit_of_mem_digits
  · exact .inr (Decimal.isDigit_of_mem_digits hc)

/-- The text of a word is made of digits and a sign. -/
theorem notMem_wordText {n : Int64} {c : Char} (hsign : c ≠ '-') (hdigit : c.isDigit = false) :
    c ∉ wordText n := by
  intro hc
  rcases mem_wordText hc with rfl | h
  · exact hsign rfl
  · rw [hdigit] at h
    cases h

/-- What trimming takes off is blank. -/
theorem mem_trim_or_isBlank {cs : List Char} {c : Char} (hc : c ∈ cs) :
    c ∈ trim cs ∨ isBlank c = true := by
  have hdropped : ∀ {ds : List Char}, c ∈ ds → c ∈ ds.dropWhile isBlank ∨ isBlank c = true := by
    intro ds hmem
    rw [← List.takeWhile_append_dropWhile (p := isBlank) (l := ds)] at hmem
    exact (List.mem_append.1 hmem).symm.imp_right List.mem_takeWhile_imp
  rcases hdropped hc with hstart | hblank
  · rcases hdropped (List.mem_reverse.2 hstart) with hend | hblank
    · exact .inl (List.mem_reverse.2 hend)
    · exact .inr hblank
  · exact .inr hblank

variable {n : Int64} {code : List Char}

/-- There are no backticks around a number either. -/
theorem backtick_notMem_of_trim (hcode : trim code = wordText n) : '\x60' ∉ code := by
  intro hmem
  rcases mem_trim_or_isBlank hmem with htrim | hblank
  · rw [hcode] at htrim
    exact notMem_wordText (by decide) (by decide) htrim
  · exact absurd hblank (by decide)

/-- The body that holds the text of a word is normalized to this text. -/
theorem normalize_wordText (hcode : trim code = wordText n) : normalize code = wordText n := by
  have hfence : withoutFence (wordText n) = wordText n := by
    refine if_neg fun hsuffix => ?_
    have hbacktick := (List.isSuffixOf_iff_suffix.1 hsuffix).subset List.mem_cons_self
    exact notMem_wordText (by decide) (by decide) hbacktick
  have hlines : Text.splitOn ['\n'] (wordText n) = [wordText n] := by
    rw [Text.splitOn_singleton]
    exact List.splitOn_eq_singleton (notMem_wordText (by decide) (by decide))
  rw [normalize, hcode, hfence, hlines]
  exact List.append_nil _

/-! ## Reading -/

/-- The expression that the text of an integer is read as. -/
def Expr.ofInt (n : Int64) : Expr :=
  if n.toInt < 0 then .unary .neg (.literal (.int (-n))) else .literal (.int n)

/-- An integer other than the smallest one has an opposite. -/
theorem toInt_neg_of_ne (hn : n ≠ Int64.minValue) : (-n).toInt = -n.toInt := by
  have hmin : n.toInt ≠ Int64.minValue.toInt := fun h => hn (Int64.toInt_inj.1 h)
  have hlow := n.le_toInt
  have hhigh := n.toInt_lt
  rw [Int64.toInt_minValue] at hmin
  rw [Int64.toInt_neg]
  exact Int.bmod_eq_of_le (by omega) (by omega)

/-- The pieces that the text of an integer is cut into. -/
def wordPieces (n : Int64) : List (Piece Token) :=
  if n.toInt < 0 then
    [tokenPiece Token.spelling (.symbol .minus), tokenPiece Token.spelling (.int (-n))]
  else [tokenPiece Token.spelling (.int n)]

private theorem textOf_wordPieces (hn : n ≠ Int64.minValue) :
    Reading.textOf (wordPieces n) = wordText n := by
  rw [wordPieces]
  split
  · rename_i hneg
    have hopposite := toInt_neg_of_ne hn
    have hnatAbs : (-n).toInt.natAbs = n.toInt.natAbs := by omega
    have hpos : ¬ (-n).toInt < 0 := by omega
    show '-' :: (wordText (-n) ++ []) = wordText n
    rw [List.append_nil, wordText, wordText, Decimal.intText, Decimal.intText, if_neg hpos,
      if_pos hneg, hnatAbs]
  · exact List.append_nil _

/-- A minus before a digit is cut off alone. -/
theorem Token.cut_minus {c : Char} (hc : c.isDigit = true) (cs : List Char) :
    cut '-' (c :: cs) = (tokenPiece spelling (.symbol .minus), c :: cs) := by
  have hpair : Symbol.ofPair? '-' c = none := by
    unfold Symbol.ofPair?
    split <;> simp_all
  show cutSymbol '-' (c :: cs) = _
  rw [cutSymbol, hpair]
  rfl

private theorem cutsOff_wordPieces (hn : n ≠ Int64.minValue) :
    CutsOff Token.cut (wordPieces n) [] := by
  have hnumber : ∀ m : Int64, 0 ≤ m.toInt →
      CutsOff Token.cut [tokenPiece Token.spelling (.int m)] [] := fun m hm =>
    (Token.chunk (t := .int m) hm).cutsOff Reading.ends_nil
  rw [wordPieces]
  split
  · rename_i hneg
    have hopposite := toInt_neg_of_ne hn
    refine ⟨⟨'-', [], rfl, ?_⟩, hnumber (-n) (by omega)⟩
    have hdigits : wordText (-n) = digits (-n).toInt.natAbs := by
      rw [wordText, Decimal.intText, if_neg (by omega)]
    obtain ⟨c, cs, hcons⟩ := List.exists_cons_of_ne_nil (Decimal.digits_ne_nil (-n).toInt.natAbs)
    have hc : c.isDigit = true := Decimal.isDigit_of_mem_digits (hcons ▸ List.mem_cons_self)
    have htext : Reading.textOf [tokenPiece Token.spelling (.int (-n))] ++ [] = c :: cs := by
      rw [List.append_nil, ← hcons, ← hdigits]
      exact List.append_nil _
    rw [htext]
    exact Token.cut_minus hc cs
  · rename_i hpos
    exact hnumber n (by omega)

private theorem flawless_wordPieces (n : Int64) : Flawless (wordPieces n) := by
  have htoken : ∀ t : Token, ∀ cause shown,
      (tokenPiece Token.spelling t).kind ≠ .fault cause shown := fun _ _ _ => by simp [tokenPiece]
  rw [wordPieces]
  split
  · exact List.forall_mem_cons.2 ⟨htoken _, List.forall_mem_singleton.2 (htoken _)⟩
  · exact List.forall_mem_singleton.2 (htoken _)

private theorem tokens_wordPieces (n : Int64) :
    (lexemesFrom 0 (wordPieces n)).map Lexeme.token = tokensOf [.expr (.ofInt n)] := by
  rw [Reading.map_token_lexemesFrom, wordPieces, Expr.ofInt]
  split <;> rfl

private theorem Expr.writable_ofInt (hn : n ≠ Int64.minValue) : (Expr.ofInt n).Writable := by
  rw [ofInt]
  split
  · have hopposite := toInt_neg_of_ne hn
    exact .unary .neg (.int (by omega))
  · exact .int (by omega)

/-- The text of an integer, unless it is the smallest one, is read as one expression. -/
theorem read_wordText (hn : n ≠ Int64.minValue) :
    read (wordText n) = .ok [.expr (.ofInt n)] := by
  have hwritable : ∀ s ∈ [Statement.expr (.ofInt n)], s.Writable :=
    List.forall_mem_singleton.2 (.expr (Expr.writable_ofInt hn))
  have hlexemes := Reading.lexemes_of_cutsOff Token.cut_faithful (cutsOff_wordPieces hn)
    (flawless_wordPieces n)
  rw [textOf_wordPieces hn] at hlexemes
  have htokens : Token.lexemes (wordText n) = .ok (lexemesFrom 0 (wordPieces n)) := by
    rw [Token.lexemes, hlexemes]
    exact congrArg Except.ok (dropSeparators_of_tokensOf hwritable (tokens_wordPieces n))
  rw [read, htokens]
  exact Reading.Reader.readAll_eq_ok_iff.2
    (Grammar.result_block hwritable (tokens_wordPieces n) (by omega))

/-! ## Evaluating -/

/-- Evaluating the expression for an integer changes nothing. -/
theorem run_evaluate_ofInt (around : Surroundings) (hn : n ≠ Int64.minValue) (f : Frame) :
    (evaluate around (.ofInt n)).run f = (.ok (.int n), f) := by
  rw [Expr.ofInt]
  split
  · have hfitting : fitting (-(-n).toInt) = .ok (.int n) := by
      have hnarrow : Decimal.narrow? (-(-n).toInt) = some n :=
        Decimal.narrow?_eq_some_iff.2 (by rw [toInt_neg_of_ne hn, Int.neg_neg])
      rw [fitting, hnarrow]
    rw [run_evaluate_unary .neg (run_evaluate_literal around (.int (-n)) f)]
    exact congrArg (·, f) hfitting
  · exact run_evaluate_literal around (.int n) f

/-- A code block with the text of an integer, unless it is the smallest one, gives this integer. -/
theorem evaluateText_wordText (around : Surroundings) (property element : String)
    (hn : n ≠ Int64.minValue) (hcode : trim code = wordText n) (s : Subject) :
    evaluateText around property element (String.ofList code) s = (.ok (.int n), s) := by
  have hread : read (normalize (String.ofList code).toList) = .ok [.expr (.ofInt n)] := by
    rw [String.toList_ofList, normalize_wordText hcode, read_wordText hn]
  have houtcome : outcome around [.expr (.ofInt n)] s = (.ok (.int n), s) := by
    have hrun : (run around .null [.expr (.ofInt n)]).run ⟨[], s⟩ = (.ok (.int n), ⟨[], s⟩) := by
      rw [run, Effect.run_bind, runStatement, run_evaluate_ofInt around hn]
      rfl
    rw [outcome, hrun]
  unfold evaluateText
  dsimp only
  rw [hread]
  dsimp only
  rw [houtcome]
  rfl

/-- A code block with the text of the smallest integer is not read: the number without its sign is
no integer. -/
theorem evaluateText_minValue (around : Surroundings) (property element : String)
    (hcode : trim code = wordText Int64.minValue) (s : Subject) :
    evaluateText around property element (String.ofList code) s =
      (.error (.evaluation property element "-9223372036854775808"
        ["1:2: Unexpected character(s) '9223372036854775808'"]), s) := by
  have htext : wordText Int64.minValue = "-9223372036854775808".toList := by decide +kernel
  have herrors : read "-9223372036854775808".toList =
      .error [⟨⟨1, 20⟩, .stray "9223372036854775808".toList, []⟩] :=
    eq_error_of_errorsIn (by decide +kernel)
  have hdescribed : describe "-9223372036854775808".toList
      ⟨⟨1, 20⟩, .stray "9223372036854775808".toList, []⟩ =
        "1:2: Unexpected character(s) '9223372036854775808'" := by
    decide +kernel
  have hnormal : normalize (String.ofList code).toList = "-9223372036854775808".toList := by
    rw [String.toList_ofList, normalize_wordText hcode, htext]
  unfold evaluateText
  dsimp only
  rw [hnormal, herrors]
  dsimp only
  rw [String.ofList_toList, List.map_singleton, hdescribed]

end InfraGraph.Block
