import InfraGraph.Proofs.Reading.Errors
import InfraGraph.Proofs.Reading.Following

/-!
# What tokens leave of a text

The tokens of a text cover parts of it, one after the other. What they leave are blanks and
comments, and a comment runs to the end of its line. Each of the parts makes the same token again
when nothing stands around it, so a token depends on the characters it covers and on nothing else.

## Main results

* `Covers` — a text consists of its tokens, blanks and comments.
* `covers_lexemesFrom` — so does every text, if its gaps are blanks and comments.
* `tiles_of_lexemes` — the tokens of a text tile it.
* `lexemes_slice` — the part of a text that a token covers has this token alone.
-/

namespace InfraGraph.Reading

open InfraGraph.Text (Span slice width)

variable {τ : Type} {cut : Cut τ}

/-! ## Blanks and comments -/

/-- The text that starts at an offset consists of the tokens, which stand at their spans, of blanks
and of comments. -/
inductive Covers (isBlank : Char → Bool) : Nat → List Char → List (Lexeme τ) → Prop
  | nil {offset : Nat} : Covers isBlank offset [] []
  | blank {offset : Nat} {c : Char} {cs : List Char} {xs : List (Lexeme τ)}
      (hc : isBlank c = true) (h : Covers isBlank (offset + c.utf8Size) cs xs) :
      Covers isBlank offset (c :: cs) xs
  | comment {offset : Nat} {body rest : List Char} {xs : List (Lexeme τ)} (hbody : '\n' ∉ body)
      (hrest : ∀ c more, rest = c :: more → c = '\n')
      (h : Covers isBlank (offset + width ('#' :: body)) rest xs) :
      Covers isBlank offset ('#' :: (body ++ rest)) xs
  | token {offset : Nat} {t : τ} {text rest : List Char} {xs : List (Lexeme τ)}
      (hne : text ≠ []) (h : Covers isBlank (offset + width text) rest xs) :
      Covers isBlank offset (text ++ rest) (⟨t, offset, offset + width text⟩ :: xs)

/-- A gap before `rest` is made of blanks, or it is a comment to the end of the line. -/
def IsGap (isBlank : Char → Bool) (text rest : List Char) : Prop :=
  (∀ c ∈ text, isBlank c = true) ∨
    ∃ body, text = '#' :: body ∧ '\n' ∉ body ∧ ∀ c more, rest = c :: more → c = '\n'

/-- Blanks that are skipped are a gap. -/
theorem isGap_cutWhile {isBlank : Char → Bool} (kind : List Char → PieceKind τ) {c : Char}
    (hc : isBlank c = true) (cs : List Char) :
    IsGap isBlank (cutWhile isBlank kind c cs).1.text (cutWhile isBlank kind c cs).2 :=
  .inl (List.forall_mem_cons.2 ⟨hc, fun _ hd => List.mem_takeWhile_imp hd⟩)

/-- A comment that is skipped is a gap. -/
theorem isGap_cutComment (isBlank : Char → Bool) (cs : List Char) :
    IsGap isBlank (cutComment '#' cs : Piece τ × List Char).1.text
      (cutComment '#' cs : Piece τ × List Char).2 := by
  refine .inr ⟨cs.takeWhile (· != '\n'), rfl, fun hmem => ?_, fun c more hrest => ?_⟩
  · exact absurd (List.mem_takeWhile_imp hmem) (by decide)
  · have hhead := List.head?_dropWhile_not (· != '\n') cs
    have hcons : cs.dropWhile (· != '\n') = c :: more := hrest
    rw [hcons] at hhead
    simpa using hhead

section

variable {isBlank : Char → Bool} {offset : Nat} {text rest : List Char} {xs : List (Lexeme τ)}

theorem Covers.blanks (htext : ∀ c ∈ text, isBlank c = true)
    (h : Covers isBlank (offset + width text) rest xs) :
    Covers isBlank offset (text ++ rest) xs := by
  induction text generalizing offset with
  | nil => exact h
  | cons c cs ih =>
      refine .blank (htext c List.mem_cons_self)
        (ih (fun d hd => htext d (List.mem_cons_of_mem c hd)) ?_)
      rw [Nat.add_assoc]
      exact h

/-- A gap before a text that is covered is covered. -/
theorem Covers.gap (htext : IsGap isBlank text rest)
    (h : Covers isBlank (offset + width text) rest xs) :
    Covers isBlank offset (text ++ rest) xs := by
  rcases htext with hblanks | ⟨body, rfl, hbody, hrest⟩
  · exact h.blanks hblanks
  · exact .comment hbody hrest h

end

/-- The gaps of a language are blanks and comments. -/
def Cut.Skips (cut : Cut τ) (isBlank : Char → Bool) : Prop :=
  ∀ c cs, (cut c cs).1.kind = .gap → IsGap isBlank (cut c cs).1.text (cut c cs).2

/-- What is skipped is a gap. -/
theorem CutOff.isGap {isBlank : Char → Bool} (hskips : cut.Skips isBlank) {p : Piece τ}
    {rest : List Char} (hcut : CutOff cut p rest) (hp : p.kind = .gap) :
    IsGap isBlank p.text rest := by
  obtain ⟨c, cs, -, hcut⟩ := hcut
  have hgap := hskips c (cs ++ rest)
  rw [hcut] at hgap
  exact hgap hp

/-- A text without faults consists of its tokens and of what its language skips. -/
theorem covers_lexemesFrom {isBlank : Char → Bool} (hskips : cut.Skips isBlank)
    {ps : List (Piece τ)} (hflawless : Flawless ps) (hcut : CutsOff cut ps []) (offset : Nat) :
    Covers isBlank offset (textOf ps) (lexemesFrom offset ps) := by
  induction ps generalizing offset with
  | nil => exact .nil
  | cons p ps ih =>
      obtain ⟨hp, hmore⟩ := List.forall_mem_cons.1 hflawless
      have hrest := ih hmore hcut.2 (offset + width p.text)
      rw [lexemesFrom, textOf_cons]
      cases hkind : p.kind with
      | fault cause shown => exact absurd hkind (hp cause shown)
      | gap =>
          have hgap := hcut.1.isGap hskips hkind
          rw [List.append_nil] at hgap
          exact .gap hgap hrest
      | token t =>
          obtain ⟨⟨c, cs, htext, -⟩, -⟩ := hcut
          exact .token (by simp [htext]) hrest

/-! ## Tiles -/

/-- The tokens of a text cover parts of it, none of them empty, one after the other; what they leave
are blanks and comments. -/
structure Tiles (isBlank : Char → Bool) (text : List Char) (xs : List (Lexeme τ)) : Prop where
  nonempty : ∀ x ∈ xs, x.span.start < x.span.stop
  within : ∀ x ∈ xs, x.span.Within text
  ordered : xs.Pairwise fun x y => x.span.stop ≤ y.span.start
  covers : Covers isBlank 0 text xs

/-- The lexemes of a text are those of its pieces. -/
theorem eq_lexemesFrom_of_lexemes {text : List Char} {xs : List (Lexeme τ)}
    (hxs : lexemes cut text = .ok xs) : xs = lexemesFrom 0 (pieces cut text) := by
  rw [lexemesFrom_eq_filterMap]
  exact (lexemes_eq_ok_iff.1 hxs).2.symm

/-- The tokens of a text tile it. -/
theorem tiles_of_lexemes (hfaithful : cut.Faithful) {isBlank : Char → Bool}
    (hskips : cut.Skips isBlank) {text : List Char} {xs : List (Lexeme τ)}
    (hxs : lexemes cut text = .ok xs) : Tiles isBlank text xs := by
  have hpieces : ∀ p ∈ pieces cut text, p.text ≠ [] := text_ne_nil_of_mem_pieces hfaithful
  have hcovers := covers_lexemesFrom hskips (flawless_of_lexemes hxs)
    (cutsOff_pieces hfaithful text) 0
  rw [textOf, flatMap_pieces hfaithful] at hcovers
  have hwithin := within_of_lexemes_ok hfaithful hxs
  obtain rfl := eq_lexemesFrom_of_lexemes hxs
  exact ⟨fun x hx => (bounds_lexemesFrom 0 hpieces x hx).2.1, hwithin,
    ordered_lexemesFrom 0 hpieces, hcovers⟩

/-! ## Tokens alone -/

/-- The part of a text that a token covers is the text of a piece. -/
theorem exists_piece_of_mem_lexemesFrom (before : List Char) (ps : List (Piece τ)) :
    ∀ x ∈ lexemesFrom (width before) ps, ∃ p ∈ ps, p.kind = .token x.token ∧
      slice x.span (before ++ textOf ps) = p.text := by
  induction ps generalizing before with
  | nil => exact fun x hx => absurd hx List.not_mem_nil
  | cons p ps ih =>
      have hmore : ∀ x ∈ lexemesFrom (width before + width p.text) ps, ∃ q ∈ p :: ps,
          q.kind = .token x.token ∧ slice x.span (before ++ textOf (p :: ps)) = q.text := by
        intro x hx
        rw [← Text.width_append] at hx
        obtain ⟨q, hq, hkind, hslice⟩ := ih (before ++ p.text) x hx
        rw [List.append_assoc] at hslice
        exact ⟨q, List.mem_cons_of_mem p hq, hkind, hslice⟩
      rw [lexemesFrom]
      cases hkind : p.kind with
      | gap => exact hmore
      | fault cause shown => exact hmore
      | token t =>
          refine List.forall_mem_cons.2 ⟨⟨p, List.mem_cons_self, hkind, ?_⟩, hmore⟩
          exact Text.slice_append before p.text (textOf ps)

/-- The text of a piece is what its token covers. -/
theorem exists_lexeme_of_mem_pieces (before : List Char) {ps : List (Piece τ)} {p : Piece τ}
    (hp : p ∈ ps) {t : τ} (hkind : p.kind = .token t) :
    ∃ x ∈ lexemesFrom (width before) ps, x.token = t ∧
      slice x.span (before ++ textOf ps) = p.text := by
  induction ps generalizing before with
  | nil => cases hp
  | cons q ps ih =>
      rw [lexemesFrom]
      rcases List.mem_cons.1 hp with rfl | hmore
      · rw [hkind]
        exact ⟨_, List.mem_cons_self, rfl, Text.slice_append before p.text (textOf ps)⟩
      · obtain ⟨x, hx, ht, hslice⟩ := ih (before ++ q.text) hmore
        rw [Text.width_append] at hx
        rw [List.append_assoc] at hslice
        refine ⟨x, ?_, ht, hslice⟩
        cases q.kind with
        | gap => exact hx
        | fault cause shown => exact hx
        | token u => exact List.mem_cons_of_mem _ hx

/-- A token of a text is a piece that is cut off somewhere. -/
theorem exists_cutOff_of_mem_lexemes (hfaithful : cut.Faithful) {text : List Char}
    {xs : List (Lexeme τ)} (hxs : lexemes cut text = .ok xs) {x : Lexeme τ} (hx : x ∈ xs) :
    ∃ c cs, (cut c cs).1.kind = .token x.token ∧ (cut c cs).1.text = slice x.span text := by
  obtain rfl := eq_lexemesFrom_of_lexemes hxs
  obtain ⟨p, hp, hkind, hslice⟩ := exists_piece_of_mem_lexemesFrom [] (pieces cut text) x hx
  rw [List.nil_append, textOf, flatMap_pieces hfaithful] at hslice
  obtain ⟨c, more, rfl⟩ := exists_cut_of_mem_piecesUpTo hp
  exact ⟨c, more, hkind, hslice.symm⟩

/-- A token is cut off again where nothing stands around it. -/
theorem lexemes_text_of_cut (hfaithful : cut.Faithful) (hcancels : cut.Cancels) {c : Char}
    {cs : List Char} {t : τ} (hkind : (cut c cs).1.kind = .token t) :
    lexemes cut (cut c cs).1.text = .ok [⟨t, 0, width (cut c cs).1.text⟩] := by
  have hflaw : ∀ cause shown, (cut c cs).1.kind ≠ .fault cause shown := by
    intro cause shown hfault
    rw [hkind] at hfault
    cases hfault
  have halone : CutsOff cut [(cut c cs).1] [] :=
    ⟨(cutOff_cut hfaithful c cs).cancel hcancels hflaw, trivial⟩
  have htext : textOf [(cut c cs).1] = (cut c cs).1.text := by simp
  have hlexemes := lexemes_of_cutsOff hfaithful halone (List.forall_mem_singleton.2 hflaw)
  rw [htext] at hlexemes
  rw [hlexemes, lexemesFrom, hkind, lexemesFrom, Nat.zero_add]

/-- The part of a text that a token covers has this token alone. -/
theorem lexemes_slice (hfaithful : cut.Faithful) (hcancels : cut.Cancels) {text : List Char}
    {xs : List (Lexeme τ)} (hxs : lexemes cut text = .ok xs) {x : Lexeme τ} (hx : x ∈ xs) :
    lexemes cut (slice x.span text) = .ok [⟨x.token, 0, width (slice x.span text)⟩] := by
  obtain ⟨c, cs, hkind, htext⟩ := exists_cutOff_of_mem_lexemes hfaithful hxs hx
  rw [← htext]
  exact lexemes_text_of_cut hfaithful hcancels hkind

end InfraGraph.Reading
