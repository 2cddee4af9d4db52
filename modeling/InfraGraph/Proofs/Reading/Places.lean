import InfraGraph.Proofs.Reading.Pieces
import InfraGraph.Reading.Cut
import Mathlib.Data.List.TakeWhile

/-!
# Where the pieces of a text stand

Gaps mean nothing, so a text is read by its other pieces and the offsets at which they start. Moving
a text moves all of them alike. Where a piece ends in front of a comment or a newline, it does not
matter what follows there, since no rule looks beyond either.

## Main results

* `spots_cons` — the pieces of a text come one after the other.
* `spots_add` — moving a text moves its pieces.
* `ordered_lexemesFrom` — tokens do not overlap.
* `cutNumeral_halts`, `takeWhile_halts` — what stands behind a comment or a newline does not matter.
-/

namespace InfraGraph.Reading

open InfraGraph.Text (Span width)

variable {τ : Type} {cut : Cut τ}

/-! ## Pieces that are no gaps -/

/-- A piece with its offset, unless it is a gap. -/
def spot (offset : Nat) (p : Piece τ) : List (Nat × Piece τ) :=
  match p.kind with
  | .gap => []
  | _ => [(offset, p)]

/-- The pieces that are no gaps, with their offsets. -/
def spotsFrom : Nat → List (Piece τ) → List (Nat × Piece τ)
  | _, [] => []
  | offset, p :: ps => spot offset p ++ spotsFrom (offset + width p.text) ps

/-- The pieces of a text that are no gaps, with their offsets. -/
def spots (cut : Cut τ) (offset : Nat) (cs : List Char) : List (Nat × Piece τ) :=
  spotsFrom offset (pieces cut cs)

/-- The lexeme that a piece at an offset is. -/
def lexemeAt? (x : Nat × Piece τ) : Option (Lexeme τ) :=
  match x.2.kind with
  | .token t => some ⟨t, x.1, x.1 + width x.2.text⟩
  | _ => none

/-- Whether a piece at an offset is a fault. -/
def isFault (x : Nat × Piece τ) : Bool :=
  match x.2.kind with
  | .fault _ _ => true
  | _ => false

/-- The lexemes of pieces are made from where they stand. -/
theorem lexemesFrom_eq_filterMap (offset : Nat) (ps : List (Piece τ)) :
    lexemesFrom offset ps = (spotsFrom offset ps).filterMap lexemeAt? := by
  induction ps generalizing offset with
  | nil => rfl
  | cons p ps ih =>
      rw [lexemesFrom, spotsFrom, spot, List.filterMap_append]
      cases hkind : p.kind with
      | gap => exact ih _
      | token t => simp [lexemeAt?, hkind, ih]
      | fault cause shown => simp [lexemeAt?, hkind, ih]

/-- There are no errors just if no piece is a fault. -/
theorem faultsFrom_eq_nil_iff (offset : Nat) (ps : List (Piece τ)) :
    faultsFrom offset ps = [] ↔ ∀ x ∈ spotsFrom offset ps, isFault x = false := by
  induction ps generalizing offset with
  | nil => exact ⟨fun _ x hx => absurd hx List.not_mem_nil, fun _ => rfl⟩
  | cons p ps ih =>
      rw [faultsFrom, spotsFrom, spot]
      cases hkind : p.kind with
      | gap => exact ih _
      | token t => simp [isFault, hkind, ih]
      | fault cause shown => simp [isFault, hkind]

/-- A text has lexemes if there is no fault among its pieces. -/
theorem lexemes_eq_ok_iff {cs : List Char} {xs : List (Lexeme τ)} :
    lexemes cut cs = .ok xs ↔
      (∀ x ∈ spots cut 0 cs, isFault x = false) ∧ (spots cut 0 cs).filterMap lexemeAt? = xs := by
  rw [spots, ← faultsFrom_eq_nil_iff, ← lexemesFrom_eq_filterMap]
  unfold lexemes
  dsimp only
  constructor
  · intro h
    split at h
    · rename_i hnone
      exact ⟨hnone, Except.ok.inj h⟩
    · cases h
  · rintro ⟨hnone, rfl⟩
    rw [hnone]

/-- A text that is cut into lexemes has no faults. -/
theorem flawless_of_lexemes {cs : List Char} {xs : List (Lexeme τ)}
    (h : lexemes cut cs = .ok xs) : Flawless (pieces cut cs) := by
  have hfaultless := (lexemes_eq_ok_iff.1 h).1
  exact flawless_of_faultsFrom ((faultsFrom_eq_nil_iff 0 _).2 hfaultless)

theorem spots_cons (h : cut.Faithful) (offset : Nat) (c : Char) (cs : List Char) :
    spots cut offset (c :: cs) =
      spot offset (cut c cs).1 ++ spots cut (offset + width (cut c cs).1.text) (cut c cs).2 := by
  rw [spots, pieces_cons h, spotsFrom, spots]

/-! ## Moving a text -/

/-- A piece at an offset, moved on. -/
def moveSpot (distance : Nat) (x : Nat × Piece τ) : Nat × Piece τ := (x.1 + distance, x.2)

/-- A lexeme, moved on. -/
def Lexeme.moved (distance : Nat) (x : Lexeme τ) : Lexeme τ :=
  ⟨x.token, x.span.start + distance, x.span.stop + distance⟩

private theorem spotsFrom_add (offset distance : Nat) (ps : List (Piece τ)) :
    spotsFrom (offset + distance) ps = (spotsFrom offset ps).map (moveSpot distance) := by
  induction ps generalizing offset with
  | nil => rfl
  | cons p ps ih =>
      have hspot : spot (offset + distance) p = (spot offset p).map (moveSpot distance) := by
        unfold spot
        cases p.kind with
        | gap => rfl
        | token t => rfl
        | fault cause shown => rfl
      rw [spotsFrom, spotsFrom, List.map_append, hspot, ← ih, Nat.add_right_comm]

/-- Pieces of a text that starts further behind stand further behind. -/
theorem spots_add (offset distance : Nat) (cs : List Char) :
    spots cut (offset + distance) cs = (spots cut offset cs).map (moveSpot distance) :=
  spotsFrom_add offset distance (pieces cut cs)

private theorem lexemeAt?_moveSpot (distance : Nat) (x : Nat × Piece τ) :
    lexemeAt? (moveSpot distance x) = (lexemeAt? x).map (Lexeme.moved distance) := by
  unfold lexemeAt? moveSpot
  cases x.2.kind with
  | gap => rfl
  | fault cause shown => rfl
  | token t => simp [Lexeme.moved, Nat.add_right_comm]

theorem filterMap_moveSpot (distance : Nat) (xs : List (Nat × Piece τ)) :
    (xs.map (moveSpot distance)).filterMap lexemeAt? =
      (xs.filterMap lexemeAt?).map (Lexeme.moved distance) := by
  induction xs with
  | nil => rfl
  | cons x xs ih =>
      rw [List.map_cons, List.filterMap_cons, List.filterMap_cons, lexemeAt?_moveSpot]
      cases lexemeAt? x with
      | none => exact ih
      | some y => exact congrArg _ ih

/-! ## Tokens in order -/

theorem width_pos {cs : List Char} (h : cs ≠ []) : 0 < width cs := by
  cases cs with
  | nil => exact absurd rfl h
  | cons c cs =>
      have hpos := c.utf8Size_pos
      rw [Text.width_cons]
      omega

/-- No piece is empty. -/
theorem text_ne_nil_of_mem_pieces (h : cut.Faithful) {cs : List Char} :
    ∀ p ∈ pieces cut cs, p.text ≠ [] := by
  intro p hp
  obtain ⟨c, more, rfl⟩ := exists_cut_of_mem_piecesUpTo hp
  exact (h c more).2

/-- Tokens stand behind the offset and before the end, and none of them is empty. -/
theorem bounds_lexemesFrom (offset : Nat) {ps : List (Piece τ)} (hps : ∀ p ∈ ps, p.text ≠ []) :
    ∀ x ∈ lexemesFrom offset ps, offset ≤ x.span.start ∧ x.span.start < x.span.stop ∧
      x.span.stop ≤ offset + width (textOf ps) := by
  induction ps generalizing offset with
  | nil => exact fun x hx => absurd hx List.not_mem_nil
  | cons p ps ih =>
      have hpos := width_pos (hps p List.mem_cons_self)
      have hmore : ∀ x ∈ lexemesFrom (offset + width p.text) ps, offset ≤ x.span.start ∧
          x.span.start < x.span.stop ∧ x.span.stop ≤ offset + width (textOf (p :: ps)) := by
        intro x hx
        obtain ⟨hstart, hlt, hstop⟩ :=
          ih (offset + width p.text) (fun q hq => hps q (List.mem_cons_of_mem p hq)) x hx
        rw [textOf_cons, Text.width_append]
        omega
      rw [lexemesFrom]
      cases p.kind with
      | gap => exact hmore
      | fault cause shown => exact hmore
      | token t =>
          refine List.forall_mem_cons.2 ⟨?_, hmore⟩
          rw [textOf_cons, Text.width_append]
          show offset ≤ offset ∧ offset < offset + width p.text ∧
            offset + width p.text ≤ offset + (width p.text + width (textOf ps))
          omega

/-- Tokens do not overlap. -/
theorem ordered_lexemesFrom (offset : Nat) {ps : List (Piece τ)} (hps : ∀ p ∈ ps, p.text ≠ []) :
    (lexemesFrom offset ps).Pairwise fun x y => x.span.stop ≤ y.span.start := by
  induction ps generalizing offset with
  | nil => exact List.Pairwise.nil
  | cons p ps ih =>
      have hmore : ∀ q ∈ ps, q.text ≠ [] := fun q hq => hps q (List.mem_cons_of_mem p hq)
      rw [lexemesFrom]
      cases p.kind with
      | gap => exact ih _ hmore
      | fault cause shown => exact ih _ hmore
      | token t =>
          refine List.pairwise_cons.2 ⟨fun y hy => ?_, ih _ hmore⟩
          exact (bounds_lexemesFrom _ hmore y hy).1

/-! ## What follows -/

/-- What follows is a comment, begins with a newline, or is nothing. -/
def Halts (rest : List Char) : Prop := ∀ c more, rest = c :: more → c = '#' ∨ c = '\n'

/-- A run without hashes and newlines ends there. -/
theorem Halts.stops {rest : List Char} (h : Halts rest) {p : Char → Bool} (hcomment : p '#' = false)
    (hnewline : p '\n' = false) : ∀ c more, rest = c :: more → p c = false := by
  intro c more hcons
  rcases h c more hcons with rfl | rfl
  · exact hcomment
  · exact hnewline

/-- The characters that numerals are written with. -/
def isNumeralChar (c : Char) : Bool :=
  c.isDigit || c = '.' || c = 'e' || c = 'E' || c = '+' || c = '-'

private theorem isNumeralChar_of_mem_leadingDigits {c : Char} {cs : List Char}
    (hc : c ∈ Decimal.leadingDigits cs) : isNumeralChar c = true := by
  have hdigit : c.isDigit = true := List.mem_takeWhile_imp hc
  simp [isNumeralChar, hdigit]

private theorem isNumeralChar_of_mem_splitFraction {c : Char} {cs : List Char}
    (hc : c ∈ (splitFraction cs).1) : isNumeralChar c = true := by
  unfold splitFraction at hc
  split at hc
  · split at hc
    · cases hc
    · rcases List.mem_cons.1 hc with rfl | hdigit
      · rfl
      · exact isNumeralChar_of_mem_leadingDigits hdigit
  · cases hc

private theorem isNumeralChar_of_mem_splitExponent {c : Char} {cs : List Char}
    (hc : c ∈ (splitExponent cs).1) : isNumeralChar c = true := by
  have hmark : ∀ d, d = 'e' ∨ d = 'E' → isNumeralChar d = true := by
    rintro d (rfl | rfl) <;> rfl
  have hsign : ∀ d, d = '+' ∨ d = '-' → isNumeralChar d = true := by
    rintro d (rfl | rfl) <;> rfl
  unfold splitExponent at hc
  split at hc
  · split at hc
    · rename_i he
      split at hc
      · rename_i hs
        split at hc
        · cases hc
        · rcases List.mem_cons.1 hc with rfl | hc
          · exact hmark c he
          rcases List.mem_cons.1 hc with rfl | hdigit
          · exact hsign c hs
          · exact isNumeralChar_of_mem_leadingDigits hdigit
      · split at hc
        · cases hc
        · rcases List.mem_cons.1 hc with rfl | hdigit
          · exact hmark c he
          · exact isNumeralChar_of_mem_leadingDigits hdigit
    · cases hc
  · cases hc

theorem isNumeralChar_of_mem_numeral {bareExponent : Bool} {c : Char} {cs : List Char}
    (hc : c ∈ (numeral bareExponent cs).text) : isNumeralChar c = true := by
  simp only [Numeral.text, numeral, List.mem_append] at hc
  rcases hc with (hwhole | hfraction) | hexponent
  · exact isNumeralChar_of_mem_leadingDigits hwhole
  · exact isNumeralChar_of_mem_splitFraction hfraction
  · split at hexponent
    · cases hexponent
    · exact isNumeralChar_of_mem_splitExponent hexponent

/-- No numeral goes on with what follows. -/
def EndsNumeral (rest : List Char) : Prop := ∀ c more, rest = c :: more → isNumeralChar c = false

/-- A number ends there, too. -/
theorem Halts.endsNumeral {rest : List Char} (h : Halts rest) : EndsNumeral rest :=
  h.stops rfl rfl

private theorem isDigit_of_isNumeralChar {c : Char} (hc : isNumeralChar c = false) :
    c.isDigit = false := by
  simp only [isNumeralChar, Bool.or_eq_false_iff] at hc
  exact hc.1.1.1.1.1

section

variable {rest : List Char}

theorem EndsNumeral.digit (h : EndsNumeral rest) : ∀ c more, rest = c :: more → c.isDigit = false :=
  fun c more hcons => isDigit_of_isNumeralChar (h c more hcons)

theorem EndsNumeral.ne {c d : Char} {more : List Char} (h : EndsNumeral (c :: more))
    (hd : isNumeralChar d = true) : c ≠ d := by
  rintro rfl
  rw [h c more rfl] at hd
  cases hd

/-- A run ends where what follows does not go on with it. -/
theorem takeWhile_halts {p : Char → Bool} (hstop : ∀ c more, rest = c :: more → p c = false)
    (cs : List Char) : (cs ++ rest).takeWhile p = cs.takeWhile p := by
  induction cs with
  | nil =>
      cases rest with
      | nil => rfl
      | cons c more => simp [hstop c more rfl]
  | cons c cs ih => simp [List.takeWhile_cons, ih]

theorem dropWhile_halts {p : Char → Bool} (hstop : ∀ c more, rest = c :: more → p c = false)
    (cs : List Char) : (cs ++ rest).dropWhile p = cs.dropWhile p ++ rest := by
  induction cs with
  | nil =>
      cases rest with
      | nil => rfl
      | cons c more => simp [hstop c more rfl]
  | cons c cs ih =>
      rw [List.cons_append, List.dropWhile_cons, List.dropWhile_cons, ih]
      split <;> rfl

private theorem splitFraction_halts (h : EndsNumeral rest) (cs : List Char) :
    splitFraction (cs ++ rest) = ((splitFraction cs).1, (splitFraction cs).2 ++ rest) := by
  have hdigit := h.digit
  cases cs with
  | nil =>
      cases rest with
      | nil => rfl
      | cons c more =>
          have hc : c ≠ '.' := h.ne rfl
          simp [splitFraction, hc]
  | cons c cs =>
      by_cases hc : c = '.'
      · subst hc
        have hleading : Decimal.leadingDigits (cs ++ rest) = Decimal.leadingDigits cs :=
          takeWhile_halts hdigit cs
        have hafter : Decimal.afterDigits (cs ++ rest) = Decimal.afterDigits cs ++ rest :=
          dropWhile_halts hdigit cs
        rw [List.cons_append, splitFraction, splitFraction, hleading, hafter]
        split <;> rfl
      · simp [splitFraction, hc]

private theorem splitExponent_halts (h : EndsNumeral rest) (cs : List Char) :
    splitExponent (cs ++ rest) = ((splitExponent cs).1, (splitExponent cs).2 ++ rest) := by
  have hdigit := h.digit
  match cs with
  | [] =>
      match rest with
      | [] => rfl
      | [c] => rfl
      | c :: d :: more =>
          have hmark : ¬ (c = 'e' ∨ c = 'E') := not_or.2 ⟨h.ne rfl, h.ne rfl⟩
          simp [splitExponent, hmark]
  | [mark] =>
      match rest with
      | [] => rfl
      | c :: more =>
          have hnone : Decimal.leadingDigits (c :: more) = [] := takeWhile_halts hdigit []
          have hsign : ¬ (c = '+' ∨ c = '-') := not_or.2 ⟨h.ne rfl, h.ne rfl⟩
          rw [List.singleton_append, splitExponent, if_neg hsign, hnone, if_pos List.isEmpty_nil,
            ite_self]
          rfl
  | mark :: sign :: cs =>
      have hleading (ds : List Char) :
          Decimal.leadingDigits (ds ++ rest) = Decimal.leadingDigits ds :=
        takeWhile_halts hdigit ds
      have hafter (ds : List Char) :
          Decimal.afterDigits (ds ++ rest) = Decimal.afterDigits ds ++ rest :=
        dropWhile_halts hdigit ds
      have hsigned := hleading (sign :: cs)
      have hsigned' := hafter (sign :: cs)
      rw [List.cons_append] at hsigned hsigned'
      rw [List.cons_append, List.cons_append, splitExponent, splitExponent, hleading, hafter,
        hsigned, hsigned']
      repeat' split
      all_goals rfl

/-- A numeral does not depend on what stands behind a character that belongs to none. -/
theorem numeral_halts (h : EndsNumeral rest) (bareExponent : Bool) (cs : List Char) :
    numeral bareExponent (cs ++ rest) =
      { numeral bareExponent cs with rest := (numeral bareExponent cs).rest ++ rest } := by
  have hdigit := h.digit
  have hleading : Decimal.leadingDigits (cs ++ rest) = Decimal.leadingDigits cs :=
    takeWhile_halts hdigit cs
  have hafter : Decimal.afterDigits (cs ++ rest) = Decimal.afterDigits cs ++ rest :=
    dropWhile_halts hdigit cs
  simp only [numeral, hleading, hafter, splitFraction_halts h, splitExponent_halts h]
  split <;> rfl

theorem rest_cutNumeral (rule : NumberRule τ) (sign cs : List Char) :
    (cutNumeral rule sign cs).2 = (numeral rule.bareExponent cs).rest := by
  unfold cutNumeral
  dsimp only
  split <;> rfl

/-- A number is cut off alike where what follows does not go on with it. -/
theorem cutNumeral_halts (h : EndsNumeral rest) (rule : NumberRule τ) (sign cs : List Char) :
    cutNumeral rule sign (cs ++ rest) =
      ((cutNumeral rule sign cs).1, (cutNumeral rule sign cs).2 ++ rest) := by
  have hnumeral := numeral_halts h rule.bareExponent cs
  have htext : (numeral rule.bareExponent (cs ++ rest)).text =
      (numeral rule.bareExponent cs).text := by
    rw [hnumeral]
    rfl
  have hrest : (numeral rule.bareExponent (cs ++ rest)).rest =
      (numeral rule.bareExponent cs).rest ++ rest := by rw [hnumeral]
  have htoken (text : List Char) : rule.token? (numeral rule.bareExponent (cs ++ rest)) text =
      rule.token? (numeral rule.bareExponent cs) text := by
    rw [hnumeral]
    rfl
  unfold cutNumeral
  dsimp only
  rw [htext, hrest, htoken]
  cases rule.token? (numeral rule.bareExponent cs)
    (sign ++ (numeral rule.bareExponent cs).text) with
  | none => rfl
  | some t => rfl

end

end InfraGraph.Reading
