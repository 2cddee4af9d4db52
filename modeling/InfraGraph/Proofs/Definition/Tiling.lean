import InfraGraph.Proofs.Definition.Comments
import InfraGraph.Proofs.Reading.Tiling

/-!
# What the tokens of definitions leave of a text

Between the tokens of a source text stand blanks and comments. A word, a mark and a code block are
written as what they are, which is why a source text can be quoted from the spans of its tokens.

## Main results

* `Token.cut_cancels` — every piece is cut off as well with less behind it.
* `Token.described_cut` — what the pieces of a source text are, and how tokens are written.
* `Token.tiles_of_lexemes`, `Token.lexemes_slice` — the tokens of a source text, together and alone.
-/

namespace InfraGraph.Definition.Token

open Reading (Cut Lexeme Numeral Piece Tiles continuesWord cutNumeral fence numeral)
open Text (slice width)

/-! ## Less behind -/

private theorem cutCode_cancel {c : Char} {cs rest behind : List Char} {p : Piece Token}
    (hp : ∀ cause shown, p.kind ≠ .fault cause shown)
    (h : cutCode c (cs ++ behind) = (p, rest ++ behind)) : cutCode c cs = (p, rest) := by
  have happend := (cutCode_faithful c (cs ++ behind)).1
  rw [h] at happend
  unfold cutCode at h
  split at h
  · split at h
    · rename_i body left huntil
      obtain ⟨hfence, hlast⟩ := fenceless_of_untilFence huntil
      obtain ⟨rfl, -⟩ := Prod.mk.inj h
      have hcs : c :: cs = fence ++ body ++ fence ++ rest :=
        List.append_cancel_right (by simpa using happend.symm)
      have htext : fence ++ body ++ fence ++ rest =
          '\x60' :: '\x60' :: '\x60' :: (body ++ (fence ++ rest)) := by simp [fence]
      rw [htext] at hcs
      obtain ⟨rfl, rfl⟩ := List.cons.inj hcs
      have hopen : fence.isPrefixOf
          ('\x60' :: '\x60' :: '\x60' :: (body ++ (fence ++ rest))) = true := rfl
      rw [cutCode, if_pos hopen, List.drop_succ_cons, List.drop_succ_cons, List.drop_zero,
        untilFence_append hfence hlast]
    · obtain ⟨rfl, -⟩ := Prod.mk.inj h
      exact absurd rfl (hp _ _)
  · obtain ⟨rfl, -⟩ := Prod.mk.inj h
    exact absurd rfl (hp _ _)

/-- A piece of a definition does not depend on how much stands behind it. -/
theorem cut_cancels : Cut.Cancels cut := by
  intro c cs rest behind p hp h
  unfold cut at h ⊢
  split at h
  · rename_i hgap
    rw [if_pos hgap]
    exact Reading.cutWhile_cancel h
  rename_i hgap
  rw [if_neg hgap]
  split at h
  · rename_i hhash
    rw [if_pos hhash]
    exact Reading.cutWhile_cancel h
  rename_i hhash
  rw [if_neg hhash]
  split at h
  · rename_i hword
    rw [if_pos hword]
    exact Reading.cutWhile_cancel h
  rename_i hword
  rw [if_neg hword]
  split at h
  · rename_i hquote
    rw [if_pos hquote]
    have hback : c ≠ '\\' := by rcases hquote with rfl | rfl <;> decide
    exact Reading.cutQuoted_cancel hback hp h
  rename_i hquote
  rw [if_neg hquote]
  split at h
  · rename_i hdigit
    rw [if_pos hdigit]
    exact Reading.cutNumeral_cancel h
  rename_i hdigit
  rw [if_neg hdigit]
  split at h
  · rename_i hsign
    rw [if_pos hsign]
    split at h
    · obtain ⟨rfl, -⟩ := Prod.mk.inj h
      exact absurd rfl (hp _ _)
    · rename_i hdigits
      have hrest : (numeral numberRule.bareExponent (cs ++ behind)).rest = rest ++ behind := by
        rw [← Reading.rest_cutNumeral numberRule [c], h]
      have hwhole : Decimal.leadingDigits cs = Decimal.leadingDigits (cs ++ behind) :=
        congrArg Numeral.whole (Reading.numeral_cancel hrest)
      rw [hwhole, if_neg hdigits]
      exact Reading.cutNumeral_cancel h
  rename_i hsign
  rw [if_neg hsign]
  split at h
  · rename_i hbacktick
    rw [if_pos hbacktick]
    exact cutCode_cancel hp h
  rename_i hbacktick
  rw [if_neg hbacktick]
  split at h
  · obtain ⟨rfl, hrest⟩ := Prod.mk.inj h
    rw [List.append_cancel_right hrest]
  · obtain ⟨rfl, -⟩ := Prod.mk.inj h
    exact absurd rfl (hp _ _)

/-! ## What pieces are -/

private theorem char_of_ofChar? {c : Char} {m : Mark} (h : Mark.ofChar? c = some m) :
    m.char = c := by
  unfold Mark.ofChar? at h
  split at h <;> cases h <;> rfl

/-- How words, marks and code blocks are written; what other tokens mean cannot be read off them. -/
def Written : Token → List Char → Prop
  | mark m, text => text = [m.char]
  | word s, text => text = s.toList ∧ ∀ c ∈ text, continuesWord c = true
  | code body, text => text = fence ++ body.toList ++ fence ∧ ¬ fence <:+: body.toList
  | _, _ => True

/-- What a piece before `rest` is, by its kind. -/
def Described (p : Piece Token) (rest : List Char) : Prop :=
  match p.kind with
  | .gap => Reading.IsGap isGap p.text rest
  | .token t => t.Written p.text
  | .fault _ _ => True

private theorem written_ofWord {text : List Char} (htext : ∀ c ∈ text, continuesWord c = true) :
    (ofWord text).Written text := by
  unfold ofWord
  split
  · trivial
  · trivial
  · trivial
  · trivial
  · exact ⟨String.toList_ofList.symm, htext⟩

private theorem described_cutQuoted (quote : Char) (cs : List Char) :
    Described (Reading.cutQuoted string quote cs).1 (Reading.cutQuoted string quote cs).2 := by
  unfold Reading.cutQuoted
  dsimp only
  split <;> trivial

private theorem described_cutNumeral (sign cs : List Char) :
    Described (cutNumeral numberRule sign cs).1 (cutNumeral numberRule sign cs).2 := by
  unfold cutNumeral
  dsimp only
  split
  · rename_i t ht
    unfold Reading.NumberRule.token? at ht
    split at ht
    · obtain ⟨n, -, rfl⟩ := Option.map_eq_some_iff.1 ht
      trivial
    · obtain ⟨x, -, rfl⟩ := Option.map_eq_some_iff.1 ht
      trivial
  · trivial

private theorem described_cutCode (c : Char) (cs : List Char) :
    Described (cutCode c cs).1 (cutCode c cs).2 := by
  unfold cutCode
  split
  · split
    · rename_i body rest huntil
      have hbody : (String.ofList body).toList = body := String.toList_ofList
      refine ⟨?_, ?_⟩
      · rw [hbody]
      · rw [hbody]
        exact (fenceless_of_untilFence huntil).1
    · trivial
  · trivial

/-- Every piece of a definition is what its kind says. -/
theorem described_cut (c : Char) (cs : List Char) : Described (cut c cs).1 (cut c cs).2 := by
  unfold cut
  split
  · rename_i hgap
    exact Reading.isGap_cutWhile (τ := Token) (fun _ => .gap) hgap cs
  split
  · rename_i hhash
    subst hhash
    exact Reading.isGap_cutComment (τ := Token) isGap cs
  split
  · rename_i hword
    have hcontinues : continuesWord c = true := by simp [continuesWord, hword]
    exact written_ofWord
      (List.forall_mem_cons.2 ⟨hcontinues, fun _ hd => List.mem_takeWhile_imp hd⟩)
  split
  · exact described_cutQuoted c cs
  split
  · exact described_cutNumeral [] (c :: cs)
  split
  · split
    · trivial
    · exact described_cutNumeral [c] cs
  split
  · exact described_cutCode c cs
  split
  · rename_i m hm
    exact congrArg (fun d => [d]) (char_of_ofChar? hm).symm
  · trivial

private theorem cut_skips : Cut.Skips cut isGap := by
  intro c cs hkind
  have hdescribed := described_cut c cs
  unfold Described at hdescribed
  rw [hkind] at hdescribed
  exact hdescribed

private theorem written_cut {c : Char} {cs : List Char} {t : Token}
    (hkind : (cut c cs).1.kind = .token t) :
    t.Written (cut c cs).1.text := by
  have hdescribed := described_cut c cs
  unfold Described at hdescribed
  rw [hkind] at hdescribed
  exact hdescribed

/-! ## The tokens of a source text -/

variable {text : List Char} {xs : List (Lexeme Token)}

/-- The tokens of definitions tile their text. -/
theorem tiles_of_lexemes (hxs : lexemes text = .ok xs) : Tiles isGap text xs :=
  Reading.tiles_of_lexemes cut_faithful cut_skips hxs

/-- Each token is made again by the part of the text that it covers. -/
theorem lexemes_slice (hxs : lexemes text = .ok xs) {x : Lexeme Token} (hx : x ∈ xs) :
    lexemes (slice x.span text) = .ok [⟨x.token, 0, width (slice x.span text)⟩] :=
  Reading.lexemes_slice cut_faithful cut_cancels hxs hx

/-- Each token covers what it is written like. -/
theorem written_slice (hxs : lexemes text = .ok xs) {x : Lexeme Token} (hx : x ∈ xs) :
    x.token.Written (slice x.span text) := by
  obtain ⟨c, cs, hkind, htext⟩ := Reading.exists_cutOff_of_mem_lexemes cut_faithful hxs hx
  rw [← htext]
  exact written_cut hkind

end InfraGraph.Definition.Token
