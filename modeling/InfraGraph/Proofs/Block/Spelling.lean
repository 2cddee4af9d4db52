import InfraGraph.Proofs.Block.Writing

/-!
# Tokens of code blocks, written and cut off again

Every token that a code block is written with is cut off as this token where a token ends, and a
space before it is a gap of its own.

## Main results

* `Token.chunk` — the piece of a written token can stand alone.
-/

namespace InfraGraph.Block

open Reading (Piece Chunk CommonCut Ends startsWord tokenPiece ne_of_class)

namespace Token

/-- The tokens that a code block is written with. -/
def Spelled : Token → Prop
  | symbol _ => True
  | name text => Expr.isName text = true
  | int n => 0 ≤ n.toInt
  | string _ => True
  | float _ => False
  | separator => False

/-! ## First characters -/

/-- A token that does not begin with a blank can stand alone. -/
theorem chunk_of_cut {p : Piece Token} (c : Char) (cs : List Char) (htext : p.text = c :: cs)
    (hc : isGap c = false) (hcut : ∀ rest, Ends rest → cut c (cs ++ rest) = (p, rest)) :
    Chunk cut [p] :=
  Reading.chunk_of_cut c cs htext (fun more => Reading.cutWhile_blank hc more) hcut

private theorem isGap_of_class {p : Char → Bool} {c : Char} (hc : p c = true)
    (hspace : p ' ' = false)
    (htab : p '\t' = false) (hreturn : p '\r' = false) (hfeed : p '\x0c' = false) :
    isGap c = false := by
  simp [isGap, ne_of_class hc hspace, ne_of_class hc htab, ne_of_class hc hreturn,
    ne_of_class hc hfeed]

private theorem isGap_eq_false {c : Char} (hc : startsWord c = true ∨ c.isDigit = true ∨ c = '"') :
    isGap c = false := by
  rcases hc with hc | hc | rfl
  · exact isGap_of_class hc rfl rfl rfl rfl
  · exact isGap_of_class hc rfl rfl rfl rfl
  · rfl

/-- Code blocks are cut by the common rules. -/
theorem commonCut : CommonCut cut ofWord string numberRule where
  word := by
    intro c cs hc
    have hbreak : ¬ (c = '\n' ∨ c = ';') := not_or.2 ⟨ne_of_class hc rfl, ne_of_class hc rfl⟩
    rw [cut, isGap_eq_false (.inl hc), if_neg (by decide), if_neg (ne_of_class hc rfl),
      if_neg hbreak, if_pos hc]
  quoted := fun _ => rfl
  number := by
    intro c cs hc
    have hbreak : ¬ (c = '\n' ∨ c = ';') := not_or.2 ⟨ne_of_class hc rfl, ne_of_class hc rfl⟩
    have hquote : ¬ (c = '"' ∨ c = '\'') := not_or.2 ⟨ne_of_class hc rfl, ne_of_class hc rfl⟩
    rw [cut, isGap_eq_false (.inr (.inl hc)), if_neg (by decide), if_neg (ne_of_class hc rfl),
      if_neg hbreak, Reading.startsWord_of_isDigit hc, if_neg (by decide), if_neg hquote,
      if_pos hc]
  space := fun cs hc => Reading.cutWhile_blank (isGap_eq_false hc) cs

/-! ## Tokens -/

private theorem chunk_symbol (s : Symbol) : Chunk cut [tokenPiece spelling (.symbol s)] := by
  have hchar : ∀ (c : Char) {t : Token}, isGap c = false →
      (∀ rest, Ends rest → cut c rest = (⟨[c], .token t⟩, rest)) → Chunk cut [⟨[c], .token t⟩] :=
    fun c t hc hcut => chunk_of_cut c [] rfl hc hcut
  have hends : ∀ {c : Char} {t : Token}, cut c [] = (⟨[c], .token t⟩, []) →
      (∀ d more, d = ' ' ∨ d = '\n' ∨ d = ';' →
        cut c (d :: more) = (⟨[c], .token t⟩, d :: more)) →
          ∀ rest, Ends rest → cut c rest = (⟨[c], .token t⟩, rest) := by
    intro c t hnil hcons rest hrest
    cases rest with
    | nil => exact hnil
    | cons d more => exact hcons d more (hrest d more rfl)
  cases s
  case ifWord => exact commonCut.chunk_word 'i' ['f'] rfl (List.all_eq_true.1 rfl)
  case thenWord =>
    exact commonCut.chunk_word 't' ['h', 'e', 'n'] rfl (List.all_eq_true.1 rfl)
  case elseWord =>
    exact commonCut.chunk_word 'e' ['l', 's', 'e'] rfl (List.all_eq_true.1 rfl)
  case trueWord =>
    exact commonCut.chunk_word 't' ['r', 'u', 'e'] rfl (List.all_eq_true.1 rfl)
  case falseWord =>
    exact commonCut.chunk_word 'f' ['a', 'l', 's', 'e'] rfl (List.all_eq_true.1 rfl)
  case nullWord =>
    exact commonCut.chunk_word 'n' ['u', 'l', 'l'] rfl (List.all_eq_true.1 rfl)
  case equal => exact chunk_of_cut '=' ['='] rfl rfl fun _ _ => rfl
  case unequal => exact chunk_of_cut '!' ['='] rfl rfl fun _ _ => rfl
  case atMost => exact chunk_of_cut '<' ['='] rfl rfl fun _ _ => rfl
  case atLeast => exact chunk_of_cut '>' ['='] rfl rfl fun _ _ => rfl
  case both => exact chunk_of_cut '&' ['&'] rfl rfl fun _ _ => rfl
  case either => exact chunk_of_cut '|' ['|'] rfl rfl fun _ _ => rfl
  all_goals
    refine hchar _ rfl (hends rfl ?_)
    rintro d more (rfl | rfl | rfl) <;> rfl

private theorem ofWord_of_isName {text : String} (htext : Expr.isName text = true) :
    ofWord text.toList = name text := by
  obtain ⟨-, -, -, -, -, hreserved⟩ := Reading.isPlainWord_eq_true_iff.1 htext
  unfold ofWord
  rw [String.ofList_toList]
  split <;> first | rfl | exact absurd (by decide) hreserved

/-- A token that is spelled as it should be is cut off again. -/
theorem chunk {t : Token} (ht : t.Spelled) : Chunk cut [tokenPiece spelling t] := by
  cases t with
  | symbol s => exact chunk_symbol s
  | name text => exact commonCut.chunk_plainWord ht (ofWord_of_isName ht)
  | int n => exact commonCut.chunk_wordText ht
  | float x => exact absurd ht id
  | string text => exact commonCut.chunk_quote text
  | separator => exact absurd ht id

end Token

end InfraGraph.Block
