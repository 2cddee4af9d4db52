import InfraGraph.Proofs.Definition.Writing

/-!
# Tokens of definitions, written and cut off again

Every token that definitions are written with is cut off as this token where a token ends, and a
space before it is a gap of its own.

## Main results

* `untilFence_append` — a code body is read up to the fence behind it.
* `Token.chunk` — the piece of a written token can stand alone.
-/

namespace InfraGraph.Definition

open Reading (Piece Chunk CommonCut Ends startsWord fence tokenPiece untilFence ne_of_class
  isPlainWord_eq_true_iff)

/-! ## Code bodies -/

/-- A body without fences ends at the first fence behind it. -/
theorem untilFence_append {body : List Char} (hfence : ¬ fence <:+: body)
    (hlast : body.getLast? ≠ some '\x60') (rest : List Char) :
    untilFence (body ++ (fence ++ rest)) = some (body, rest) := by
  induction body with
  | nil => rfl
  | cons c cs ih =>
      have hmore : untilFence (cs ++ (fence ++ rest)) = some (cs, rest) := by
        refine ih (fun h => hfence (h.trans (List.suffix_cons c cs).isInfix)) fun h => hlast ?_
        cases cs with
        | nil => cases h
        | cons d ds => rwa [List.getLast?_cons_cons]
      -- A fence at the front would be inside the body, or begin with its last character.
      have hfront : ∀ more, c = '\x60' → cs ++ (fence ++ rest) = '\x60' :: '\x60' :: more →
          False := by
        rintro more rfl hcons
        match cs with
        | [] => exact hlast rfl
        | [d] =>
            obtain ⟨rfl, -⟩ := List.cons.inj hcons
            exact hlast rfl
        | d :: e :: ds =>
            obtain ⟨hd, hcons⟩ := List.cons.inj hcons
            obtain ⟨he, -⟩ := List.cons.inj hcons
            subst hd he
            exact hfence (List.prefix_append fence ds).isInfix
      rw [List.cons_append, untilFence, hmore]
      · rfl
      · exact hfront

/-- Nothing read up to a fence has a fence in it, or could begin one. -/
theorem fenceless_of_untilFence {cs body rest : List Char}
    (h : untilFence cs = some (body, rest)) :
    ¬ fence <:+: body ∧ body.getLast? ≠ some '\x60' := by
  fun_induction untilFence cs generalizing body with
  | case1 more =>
      cases h
      exact ⟨fun hinfix => absurd hinfix.length_le (by decide), fun hend => by cases hend⟩
  | case2 c cs hfront ih =>
      obtain ⟨⟨inner, left⟩, hinner, hbody⟩ := Option.map_eq_some_iff.1 h
      cases hbody
      obtain ⟨hfence, hlast⟩ := ih hinner
      have hcs := Reading.untilFence_eq_some hinner
      refine ⟨fun hinfix => ?_, fun hend => ?_⟩
      · rcases List.infix_cons_iff.1 hinfix with ⟨more, hprefix⟩ | hinside
        · obtain ⟨rfl, rfl⟩ := List.cons.inj hprefix
          exact hfront _ rfl hcs
        · exact hfence hinside
      · cases inner with
        | nil =>
            cases hend
            exact hfront _ rfl hcs
        | cons d ds =>
            rw [List.getLast?_cons_cons] at hend
            exact hlast hend
  | case3 => cases h

namespace Token

/-- The tokens that definitions are written with. -/
def Spelled : Token → Prop
  | mark _ | bool _ | string _ | int _ => True
  | word text => isWord text = true
  | code body => IsBody body
  | float _ => False

/-! ## First characters -/

private theorem isGap_of_class {p : Char → Bool} {c : Char} (hc : p c = true)
    (hspace : p ' ' = false)
    (htab : p '\t' = false) (hnewline : p '\n' = false) (hreturn : p '\r' = false)
    (hfeed : p '\x0c' = false) : isGap c = false := by
  simp [isGap, ne_of_class hc hspace, ne_of_class hc htab, ne_of_class hc hnewline,
    ne_of_class hc hreturn, ne_of_class hc hfeed]

/-- A token that does not begin with a blank can stand alone. -/
theorem chunk_of_cut {p : Piece Token} (c : Char) (cs : List Char) (htext : p.text = c :: cs)
    (hc : isGap c = false) (hcut : ∀ rest, Ends rest → cut c (cs ++ rest) = (p, rest)) :
    Chunk cut [p] :=
  Reading.chunk_of_cut c cs htext (fun more => Reading.cutWhile_blank hc more) hcut

private theorem isGap_eq_false {c : Char} (hc : startsWord c = true ∨ c.isDigit = true ∨ c = '"') :
    isGap c = false := by
  rcases hc with hc | hc | rfl
  · exact isGap_of_class hc rfl rfl rfl rfl rfl
  · exact isGap_of_class hc rfl rfl rfl rfl rfl
  · rfl

/-- Definitions are cut by the common rules. -/
theorem commonCut : CommonCut cut ofWord string numberRule where
  word := by
    intro c cs hc
    rw [cut, isGap_eq_false (.inl hc), if_neg (by decide), if_neg (ne_of_class hc rfl), if_pos hc]
  quoted := fun _ => rfl
  number := by
    intro c cs hc
    have hquote : ¬ (c = '"' ∨ c = '\'') := not_or.2 ⟨ne_of_class hc rfl, ne_of_class hc rfl⟩
    rw [cut, isGap_eq_false (.inr (.inl hc)), if_neg (by decide), if_neg (ne_of_class hc rfl),
      Reading.startsWord_of_isDigit hc, if_neg (by decide), if_neg hquote, if_pos hc]
  space := fun cs hc => Reading.cutWhile_blank (isGap_eq_false hc) cs

/-! ## Tokens -/

/-- What is no reserved word is an ordinary one. -/
theorem ofWord_of_isWord {text : String} (htext : isWord text = true) :
    ofWord text.toList = word text := by
  obtain ⟨-, -, -, -, -, htruth⟩ := isPlainWord_eq_true_iff.1 htext
  unfold ofWord
  rw [String.ofList_toList]
  split <;> first | rfl | exact absurd (by decide) htruth

/-- A mark is cut off alone. -/
theorem cut_mark (m : Mark) (rest : List Char) :
    cut m.char rest = (⟨[m.char], .token (mark m)⟩, rest) := by
  cases m <;> rfl

private theorem chunk_bool (b : Bool) : Chunk cut [tokenPiece spelling (.bool b)] := by
  cases b with
  | true => exact commonCut.chunk_word 't' ['r', 'u', 'e'] rfl (List.all_eq_true.1 rfl)
  | false =>
      exact commonCut.chunk_word 'f' ['a', 'l', 's', 'e'] rfl (List.all_eq_true.1 rfl)

/-- A negative number is cut off with its sign. -/
theorem chunk_negative {n : Int64} (hn : n.toInt < 0) :
    Chunk cut [tokenPiece spelling (.int n)] := by
  have hsign : Decimal.wordText n = '-' :: Decimal.digits n.toInt.natAbs := by
    rw [Decimal.wordText, Decimal.intText, if_pos hn]
  refine chunk_of_cut '-' (Decimal.digits n.toInt.natAbs) hsign rfl
    fun rest hrest => ?_
  have hdigits : (Decimal.leadingDigits (Decimal.digits n.toInt.natAbs ++ rest)).isEmpty =
      false := by
    obtain ⟨c, cs, hcons⟩ := List.exists_cons_of_ne_nil (Decimal.digits_ne_nil n.toInt.natAbs)
    have hc : c.isDigit = true := Decimal.isDigit_of_mem_digits (hcons ▸ List.mem_cons_self)
    rw [hcons, List.cons_append, Decimal.leadingDigits, List.takeWhile_cons, hc]
    rfl
  rw [cut, if_neg (by decide), if_neg (by decide), if_neg (by decide), if_neg (by decide),
    if_neg (by decide), if_pos rfl, hdigits, if_neg (by decide)]
  exact Reading.cutNumeral_digits numberRule ['-'] hsign hrest

private theorem chunk_code {body : String} (hbody : IsBody body) :
    Chunk cut [tokenPiece spelling (.code body)] := by
  refine chunk_of_cut '\x60' ('\x60' :: '\x60' :: (body.toList ++ fence)) rfl rfl
    fun rest _ => ?_
  have hcut : cut '\x60' ('\x60' :: '\x60' :: (body.toList ++ fence) ++ rest) =
      cutCode '\x60' ('\x60' :: '\x60' :: (body.toList ++ (fence ++ rest))) := by
    rw [List.cons_append, List.cons_append, List.append_assoc]
    rfl
  have hfence : fence.isPrefixOf
      ('\x60' :: '\x60' :: '\x60' :: (body.toList ++ (fence ++ rest))) = true := rfl
  rw [hcut, cutCode, if_pos hfence, List.drop_succ_cons, List.drop_succ_cons, List.drop_zero,
    untilFence_append hbody.1 hbody.2]
  simp only [String.ofList_toList]
  rfl

/-- A token that is spelled as it should be is cut off again. -/
theorem chunk {t : Token} (ht : t.Spelled) : Chunk cut [tokenPiece spelling t] := by
  cases t with
  | mark m =>
      have hgap : isGap m.char = false := by cases m <;> rfl
      exact chunk_of_cut m.char [] rfl hgap fun rest _ => cut_mark m rest
  | bool b => exact chunk_bool b
  | word text => exact commonCut.chunk_plainWord ht (ofWord_of_isWord ht)
  | string text => exact commonCut.chunk_quote text
  | int n =>
      rcases Int.lt_or_le n.toInt 0 with hn | hn
      · exact chunk_negative hn
      · exact commonCut.chunk_wordText hn
  | float x => exact absurd ht id
  | code body => exact chunk_code ht

end Token

end InfraGraph.Definition
