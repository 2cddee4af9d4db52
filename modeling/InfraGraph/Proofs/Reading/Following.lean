import InfraGraph.Proofs.Reading.Places
import InfraGraph.Proofs.Reading.Spelling

/-!
# What stands behind a piece

A piece is as long as it can be, so what stands behind it has a say in where it ends. Taking the end
of a text away cannot move the end of a piece that lies before: where less stands behind, less can
go on. A piece is therefore cut off alone if it is cut off anywhere, and the first pieces of a text
are the pieces of its first part.

## Main results

* `cutWhile_cancel`, `cutQuoted_cancel`, `cutNumeral_cancel` — the cuts that both languages share.
* `Cut.Cancels` — every piece of a language is cut off as well with less behind it.
* `cutsOff_pieces` — the pieces of a text are cut off one after the other.
* `CutsOff.cancel` — so are the first of them where the text ends earlier.
-/

namespace InfraGraph.Reading

open InfraGraph.Decimal (leadingDigits afterDigits)

variable {τ : Type} {cut : Cut τ} {cs rest behind : List Char}

/-! ## Classes of characters -/

/-- A run of characters that ends before a place is the same without what stands behind it. -/
theorem dropWhile_cancel {p : Char → Bool}
    (h : (cs ++ behind).dropWhile p = rest ++ behind) :
    cs.dropWhile p = rest ∧ cs.takeWhile p = (cs ++ behind).takeWhile p := by
  induction cs with
  | nil =>
      rw [List.nil_append] at h ⊢
      have hwhole := List.takeWhile_append_dropWhile (p := p) (l := behind)
      have hlength := congrArg List.length hwhole
      rw [h, List.length_append, List.length_append] at hlength
      exact ⟨(List.eq_nil_of_length_eq_zero (by omega)).symm,
        (List.eq_nil_of_length_eq_zero (by omega)).symm⟩
  | cons c cs ih =>
      rw [List.cons_append, List.dropWhile_cons] at h
      rw [List.cons_append, List.dropWhile_cons, List.takeWhile_cons, List.takeWhile_cons]
      split at h
      · rename_i hc
        rw [if_pos hc, if_pos hc, if_pos hc]
        exact ⟨(ih h).1, congrArg _ (ih h).2⟩
      · rename_i hc
        rw [if_neg hc, if_neg hc, if_neg hc]
        exact ⟨List.append_cancel_right h, rfl⟩

theorem takeWhile_eq_nil_of_append {p : Char → Bool} (h : (cs ++ behind).takeWhile p = []) :
    cs.takeWhile p = [] := by
  cases cs with
  | nil => rfl
  | cons c cs =>
      rw [List.cons_append, List.takeWhile_cons] at h
      rw [List.takeWhile_cons]
      split at h
      · cases h
      · rename_i hc
        rw [if_neg hc]

/-- A run of characters is cut off as well with less behind it. -/
theorem cutWhile_cancel {inClass : Char → Bool} {kind : List Char → PieceKind τ} {c : Char}
    {p : Piece τ} (h : cutWhile inClass kind c (cs ++ behind) = (p, rest ++ behind)) :
    cutWhile inClass kind c cs = (p, rest) := by
  obtain ⟨htext, hrest⟩ := Prod.mk.inj h
  obtain ⟨hdrop, htake⟩ := dropWhile_cancel hrest
  rw [cutWhile, htake, hdrop, ← htext]

/-! ## Quoted texts -/

/-- A string is cut off as well with less behind it. -/
theorem cutQuoted_cancel {string : String → τ} {quote : Char} (hquote : quote ≠ '\\')
    {p : Piece τ} (hp : ∀ cause shown, p.kind ≠ .fault cause shown)
    (h : cutQuoted string quote (cs ++ behind) = (p, rest ++ behind)) :
    cutQuoted string quote cs = (p, rest) := by
  have happend := Quoted.taken_append_rest quote (cs ++ behind)
  rw [cutQuoted] at h
  split at h
  · rename_i hclosed
    obtain ⟨hpiece, hrest⟩ := Prod.mk.inj h
    have hbody := quotedBody_of_closed hclosed
    rw [hrest, Quoted.taken, if_pos hclosed] at happend
    have hcs : cs = (quoted quote (cs ++ behind)).body ++ quote :: rest :=
      List.append_cancel_right (happend.symm.trans (by simp))
    have hquoted := quoted_of_body hquote hbody rest
    rw [← hcs] at hquoted
    rw [cutQuoted, hquoted, ← hpiece, Quoted.taken, Quoted.taken, if_pos hclosed]
    rfl
  · obtain ⟨rfl, -⟩ := Prod.mk.inj h
    exact absurd rfl (hp _ _)

/-! ## Numerals -/

private theorem splitFraction_cancel {fraction : List Char}
    (h : splitFraction (cs ++ behind) = (fraction, rest ++ behind)) :
    splitFraction cs = (fraction, rest) := by
  have happend := splitFraction_append (cs ++ behind)
  rw [h, ← List.append_assoc] at happend
  have hparts : fraction ++ rest = cs := List.append_cancel_right happend
  cases cs with
  | nil =>
      obtain ⟨rfl, rfl⟩ := List.append_eq_nil_iff.1 hparts
      rfl
  | cons c cs =>
      by_cases hc : c = '.'
      · subst hc
        rw [List.cons_append, splitFraction] at h
        rw [splitFraction]
        split at h
        · rename_i hnone
          have hnone' : leadingDigits cs = [] :=
            takeWhile_eq_nil_of_append (List.isEmpty_iff.1 hnone)
          rw [hnone', if_pos List.isEmpty_nil]
          obtain ⟨rfl, -⟩ := Prod.mk.inj h
          rw [← hparts, List.nil_append]
        · rename_i hsome
          obtain ⟨hfraction, hrest⟩ := Prod.mk.inj h
          obtain ⟨hdrop, htake⟩ := dropWhile_cancel hrest
          have hsome' : ¬ (leadingDigits cs).isEmpty = true := by
            rw [leadingDigits, htake]
            exact hsome
          rw [if_neg hsome', ← hfraction, leadingDigits, afterDigits, htake, hdrop]
          rfl
      · rw [splitFraction.eq_2 _ (by simpa using hc)] at h ⊢
        obtain ⟨rfl, -⟩ := Prod.mk.inj h
        rw [← hparts, List.nil_append]

/-- What is taken as an exponent has more than one character. -/
theorem length_splitExponent (cs : List Char) :
    (splitExponent cs).1 = [] ∨ 1 < (splitExponent cs).1.length := by
  unfold splitExponent
  split
  · rename_i mark sign cs
    split
    · split
      · split
        · exact .inl rfl
        · exact .inr (by simp)
      · split
        · exact .inl rfl
        · rename_i hsome
          have hpos := List.length_pos_iff.2 fun h => hsome (List.isEmpty_iff.2 h)
          exact .inr (by rw [List.length_cons]; omega)
    · exact .inl rfl
  · exact .inl rfl

private theorem splitExponent_cancel {exponent : List Char}
    (h : splitExponent (cs ++ behind) = (exponent, rest ++ behind)) :
    splitExponent cs = (exponent, rest) := by
  have happend := splitExponent_append (cs ++ behind)
  have hlength := length_splitExponent (cs ++ behind)
  rw [h, ← List.append_assoc] at happend
  rw [h] at hlength
  have hparts : exponent ++ rest = cs := List.append_cancel_right happend
  match cs with
  | [] =>
      obtain ⟨rfl, rfl⟩ := List.append_eq_nil_iff.1 hparts
      rfl
  | [c] =>
      have hone := congrArg List.length hparts
      rw [List.length_append, List.length_singleton] at hone
      rcases hlength with rfl | hlong
      · obtain rfl : rest = [c] := hparts
        rfl
      · dsimp only at hlong
        omega
  | mark :: sign :: cs =>
      have hnothing : exponent = [] → rest = mark :: sign :: cs := by
        rintro rfl
        exact hparts
      rw [List.cons_append, List.cons_append, splitExponent] at h
      rw [splitExponent]
      split at h
      · rename_i hmark
        rw [if_pos hmark]
        split at h
        · rename_i hsign
          rw [if_pos hsign]
          split at h
          · rename_i hnone
            have hnone' : leadingDigits cs = [] :=
              takeWhile_eq_nil_of_append (List.isEmpty_iff.1 hnone)
            obtain ⟨rfl, -⟩ := Prod.mk.inj h
            rw [hnone', if_pos List.isEmpty_nil, hnothing rfl]
          · rename_i hsome
            obtain ⟨hexponent, hrest⟩ := Prod.mk.inj h
            obtain ⟨hdrop, htake⟩ := dropWhile_cancel hrest
            have hsome' : ¬ (leadingDigits cs).isEmpty = true := by
              rw [leadingDigits, htake]
              exact hsome
            rw [if_neg hsome', ← hexponent, leadingDigits, afterDigits, htake, hdrop]
            rfl
        · rename_i hsign
          rw [if_neg hsign]
          split at h
          · rename_i hnone
            have hnone' : leadingDigits (sign :: cs) = [] :=
              takeWhile_eq_nil_of_append (List.isEmpty_iff.1 hnone)
            obtain ⟨rfl, -⟩ := Prod.mk.inj h
            rw [hnone', if_pos List.isEmpty_nil, hnothing rfl]
          · rename_i hsome
            obtain ⟨hexponent, hrest⟩ := Prod.mk.inj h
            rw [← List.cons_append] at hrest
            obtain ⟨hdrop, htake⟩ := dropWhile_cancel hrest
            have hsome' : ¬ (leadingDigits (sign :: cs)).isEmpty = true := by
              rw [leadingDigits, htake]
              exact hsome
            rw [if_neg hsome', ← hexponent, leadingDigits, afterDigits, htake, hdrop]
            rfl
      · rename_i hmark
        obtain ⟨rfl, -⟩ := Prod.mk.inj h
        rw [if_neg hmark, hnothing rfl]

/-- A numeral is the same with less behind it. -/
theorem numeral_cancel {bareExponent : Bool}
    (h : (numeral bareExponent (cs ++ behind)).rest = rest ++ behind) :
    numeral bareExponent cs = { numeral bareExponent (cs ++ behind) with rest := rest } := by
  have hfraction := splitFraction_append (afterDigits (cs ++ behind))
  have hexponent := splitExponent_append (splitFraction (afterDigits (cs ++ behind))).2
  generalize hf : splitFraction (afterDigits (cs ++ behind)) = f at hfraction hexponent
  generalize he : splitExponent f.2 = e at hexponent
  -- What stands behind the digits of the whole part ends as the text does.
  have hafter : ∀ fractionRest, f = (f.1, fractionRest ++ behind) →
      afterDigits cs = f.1 ++ fractionRest ∧
        leadingDigits cs = leadingDigits (cs ++ behind) ∧
          splitFraction (afterDigits cs) = (f.1, fractionRest) := by
    intro fractionRest hrest
    have hdrop : afterDigits (cs ++ behind) = (f.1 ++ fractionRest) ++ behind := by
      rw [← hfraction, congrArg Prod.snd hrest, List.append_assoc]
    obtain ⟨hcs, htake⟩ := dropWhile_cancel hdrop
    have hsplit : splitFraction (afterDigits cs ++ behind) = (f.1, fractionRest ++ behind) := by
      rw [show afterDigits cs = f.1 ++ fractionRest from hcs, ← hdrop, hf, hrest]
    exact ⟨hcs, htake, splitFraction_cancel hsplit⟩
  simp only [numeral, hf, he] at h ⊢
  by_cases hnone : (f.1.isEmpty && !bareExponent) = true
  · rw [if_pos hnone] at h ⊢
    obtain ⟨-, htake, hsplit⟩ := hafter rest (Prod.ext rfl h)
    rw [hsplit, htake, if_pos hnone]
  · rw [if_neg hnone] at h ⊢
    have hwhole : f.2 = (e.1 ++ rest) ++ behind := by
      rw [← hexponent, h, List.append_assoc]
    obtain ⟨-, htake, hsplit⟩ := hafter (e.1 ++ rest) (Prod.ext rfl hwhole)
    have hbehind : splitExponent ((e.1 ++ rest) ++ behind) = (e.1, rest ++ behind) := by
      rw [← hwhole, he, ← h]
    have hmark : splitExponent (e.1 ++ rest) = (e.1, rest) := splitExponent_cancel hbehind
    rw [hsplit, htake, if_neg hnone]
    dsimp only
    rw [hmark]

/-- A number is cut off as well with less behind it. -/
theorem cutNumeral_cancel {rule : NumberRule τ} {sign : List Char} {p : Piece τ}
    (h : cutNumeral rule sign (cs ++ behind) = (p, rest ++ behind)) :
    cutNumeral rule sign cs = (p, rest) := by
  have hrest : (numeral rule.bareExponent (cs ++ behind)).rest = rest ++ behind := by
    rw [← rest_cutNumeral rule sign, h]
  have hnumeral := numeral_cancel hrest
  have htext : (numeral rule.bareExponent cs).text =
      (numeral rule.bareExponent (cs ++ behind)).text := by
    rw [hnumeral]
    rfl
  have htoken (text : List Char) : rule.token? (numeral rule.bareExponent cs) text =
      rule.token? (numeral rule.bareExponent (cs ++ behind)) text := by
    rw [hnumeral]
    rfl
  have hleft : (numeral rule.bareExponent cs).rest = rest := by rw [hnumeral]
  unfold cutNumeral at h ⊢
  dsimp only at h ⊢
  rw [htext, htoken, hleft]
  cases ht : rule.token? (numeral rule.bareExponent (cs ++ behind))
      (sign ++ (numeral rule.bareExponent (cs ++ behind)).text) with
  | none =>
      rw [ht] at h
      exact Prod.ext (Prod.mk.inj h).1 rfl
  | some t =>
      rw [ht] at h
      exact Prod.ext (Prod.mk.inj h).1 rfl

/-! ## All pieces -/

/-- Every piece but a fault is cut off as well with less behind it. -/
def Cut.Cancels (cut : Cut τ) : Prop :=
  ∀ {c : Char} {cs rest behind : List Char} {p : Piece τ},
    (∀ cause shown, p.kind ≠ .fault cause shown) → cut c (cs ++ behind) = (p, rest ++ behind) →
      cut c cs = (p, rest)

/-- A piece is cut off where the rest follows it. -/
theorem cutOff_cut (h : cut.Faithful) (c : Char) (cs : List Char) :
    CutOff cut (cut c cs).1 (cut c cs).2 := by
  obtain ⟨happend, hne⟩ := h c cs
  obtain ⟨d, ds, htext⟩ := List.exists_cons_of_ne_nil hne
  rw [htext, List.cons_append] at happend
  obtain ⟨rfl, hds⟩ := List.cons.inj happend
  exact ⟨d, ds, htext, by rw [hds]⟩

/-- The pieces of a text are cut off one after the other. -/
theorem cutsOff_pieces (h : cut.Faithful) (cs : List Char) : CutsOff cut (pieces cut cs) [] := by
  induction hlength : cs.length using Nat.strongRecOn generalizing cs with
  | ind n ih =>
      subst hlength
      cases cs with
      | nil => trivial
      | cons c cs =>
          obtain ⟨happend, hne⟩ := h c cs
          have hshorter : (cut c cs).2.length < (c :: cs).length := by
            have hpos := List.length_pos_iff.2 hne
            rw [← happend, List.length_append]
            omega
          have hfirst := cutOff_cut h c cs
          rw [pieces_cons h]
          refine ⟨?_, ih _ hshorter _ rfl⟩
          rw [textOf, flatMap_pieces h, List.append_nil]
          exact hfirst

/-- A piece without a fault is cut off as well with less behind it. -/
theorem CutOff.cancel (h : cut.Cancels) {p : Piece τ}
    (hp : ∀ cause shown, p.kind ≠ .fault cause shown) (hcut : CutOff cut p (rest ++ behind)) :
    CutOff cut p rest := by
  obtain ⟨c, cs, htext, hcut⟩ := hcut
  rw [← List.append_assoc] at hcut
  exact ⟨c, cs, htext, h hp hcut⟩

/-- Pieces without faults are cut off as well with less behind them. -/
theorem CutsOff.cancel (h : cut.Cancels) {ps : List (Piece τ)} (hps : Flawless ps)
    (hcut : CutsOff cut ps (rest ++ behind)) : CutsOff cut ps rest := by
  induction ps with
  | nil => trivial
  | cons p ps ih =>
      obtain ⟨hp, hmore⟩ := List.forall_mem_cons.1 hps
      refine ⟨?_, ih hmore hcut.2⟩
      have hfirst := hcut.1
      rw [← List.append_assoc] at hfirst
      exact hfirst.cancel h hp

/-- The first pieces of a text are the pieces of its first part. -/
theorem pieces_textOf (hfaithful : cut.Faithful) {ps : List (Piece τ)} (hcut : CutsOff cut ps []) :
    pieces cut (textOf ps) = ps := by
  have hpieces := pieces_of_cutsOff hfaithful hcut
  rw [List.append_nil] at hpieces
  rw [hpieces]
  exact List.append_nil ps

end InfraGraph.Reading
