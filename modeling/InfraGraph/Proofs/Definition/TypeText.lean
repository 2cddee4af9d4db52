import InfraGraph.Proofs.Definition.Completeness
import InfraGraph.Proofs.Definition.Spelling
import InfraGraph.Text.Search

/-!
# The text of a component type

A component type is read as several tokens, and then its text is cut out of the source text, from
the first token to the last one, with one space in place of the blanks between words. A type that is
made of words with a dot or a space between them is what is cut out at its place.

## Main results

* `chunk_typePieces` — the pieces of a component type can stand alone.
* `coveredBy_typePieces` — the tokens of a component type cover it.
* `intercalate_words_joined` — its blanks are single spaces already.
-/

namespace InfraGraph.Definition

open Reading (Lexeme Piece Chunk CutsOff Ends blank continuesWord startsWord tokenPiece textOf
  pieces Flawless lexemesFrom isPlainWord_eq_true_iff)
open Text (Span width isBlank wordsFrom words)

variable {first : String} {more : List (Joint × String)}

/-! ## Pieces -/

/-- The piece between two words of a component type. -/
def Joint.piece : Joint → Piece Token
  | dot => tokenPiece Token.spelling (.mark .dot)
  | space => blank

/-- The pieces of further words of a component type, each behind a joint. -/
def furtherPieces (more : List (Joint × String)) : List (Piece Token) :=
  more.flatMap fun w => [w.1.piece, tokenPiece Token.spelling (.word w.2)]

/-- The pieces of a component type. -/
def typePieces (first : String) (more : List (Joint × String)) : List (Piece Token) :=
  tokenPiece Token.spelling (.word first) :: furtherPieces more

theorem furtherPieces_cons (j : Joint) (text : String) (more : List (Joint × String)) :
    furtherPieces ((j, text) :: more) =
      j.piece :: tokenPiece Token.spelling (.word text) :: furtherPieces more := rfl

private theorem textOf_furtherPieces (more : List (Joint × String)) :
    textOf (furtherPieces more) = more.flatMap fun w => w.1.char :: w.2.toList := by
  induction more with
  | nil => rfl
  | cons w more ih =>
      obtain ⟨j, text⟩ := w
      rw [furtherPieces_cons, Reading.textOf_cons, Reading.textOf_cons, ih, List.flatMap_cons]
      cases j <;> rfl

/-- The pieces of a type make its text. -/
theorem textOf_typePieces (first : String) (more : List (Joint × String)) :
    textOf (typePieces first more) = joined first more := by
  rw [typePieces, Reading.textOf_cons, textOf_furtherPieces]
  rfl

/-- A word is cut off where it does not go on. -/
theorem cutOff_word {text : String} {rest : List Char} (htext : isWord text = true)
    (hrest : ∀ d more, rest = d :: more → continuesWord d = false) :
    Reading.CutOff Token.cut (tokenPiece Token.spelling (.word text)) rest := by
  have hword := Token.ofWord_of_isWord htext
  obtain ⟨c, cs, hcons, hc, hcs, -⟩ := isPlainWord_eq_true_iff.1 htext
  refine ⟨c, cs, hcons, ?_⟩
  rw [Token.commonCut.cut_word hc hcs hrest, tokenPiece, Token.spelling, ← hcons, hword]

/-- A word ends where a joint follows it. -/
theorem continuesWord_furtherPieces {rest : List Char}
    (hrest : ∀ d more, rest = d :: more → continuesWord d = false)
    (more : List (Joint × String)) (d : Char) (ds : List Char)
    (h : textOf (furtherPieces more) ++ rest = d :: ds) : continuesWord d = false := by
  cases more with
  | nil => exact hrest d ds h
  | cons w more =>
      obtain ⟨j, text⟩ := w
      rw [furtherPieces_cons, Reading.textOf_cons, List.append_assoc] at h
      cases j with
      | dot =>
          obtain ⟨rfl, -⟩ := List.cons.inj h
          rfl
      | space =>
          obtain ⟨rfl, -⟩ := List.cons.inj h
          rfl

/-- A joint is cut off before a word. -/
theorem cutOff_joint (j : Joint) {text : String} (htext : isWord text = true) (rest : List Char) :
    Reading.CutOff Token.cut j.piece (text.toList ++ rest) := by
  obtain ⟨c, cs, hcons, hc, -, -⟩ := isPlainWord_eq_true_iff.1 htext
  cases j with
  | dot => exact ⟨'.', [], rfl, Token.cut_mark .dot _⟩
  | space =>
      refine ⟨' ', [], rfl, ?_⟩
      rw [hcons]
      exact Token.commonCut.space _ (.inl hc)

private theorem cutsOff_furtherPieces (hmore : ∀ w ∈ more, isWord w.2 = true) {rest : List Char}
    (hrest : ∀ d ds, rest = d :: ds → continuesWord d = false) :
    CutsOff Token.cut (furtherPieces more) rest := by
  induction more with
  | nil => trivial
  | cons w more ih =>
      obtain ⟨j, text⟩ := w
      have htext : isWord text = true := hmore (j, text) List.mem_cons_self
      rw [furtherPieces_cons]
      refine ⟨?_, cutOff_word htext (continuesWord_furtherPieces hrest more),
        ih fun w hw => hmore w (List.mem_cons_of_mem _ hw)⟩
      rw [Reading.textOf_cons, List.append_assoc]
      exact cutOff_joint j htext _

theorem cutsOff_typePieces (hfirst : isWord first = true) (hmore : ∀ w ∈ more, isWord w.2 = true)
    {rest : List Char} (hrest : ∀ d ds, rest = d :: ds → continuesWord d = false) :
    CutsOff Token.cut (typePieces first more) rest :=
  ⟨cutOff_word hfirst (continuesWord_furtherPieces hrest more), cutsOff_furtherPieces hmore hrest⟩

/-- A type is cut off word by word. -/
theorem chunk_typePieces (hfirst : isWord first = true)
    (hmore : ∀ w ∈ more, isWord w.2 = true) : Chunk Token.cut (typePieces first more) where
  begins := by
    obtain ⟨c, cs, hcons, hc, -, -⟩ := isPlainWord_eq_true_iff.1 hfirst
    refine ⟨c, cs ++ textOf (furtherPieces more), ?_,
      fun ds => Token.commonCut.space ds (.inl hc)⟩
    rw [typePieces, Reading.textOf_cons, ← List.cons_append, ← hcons]
    rfl
  cutsOff := fun hrest => cutsOff_typePieces hfirst hmore (hrest.stops rfl rfl rfl)

theorem flawless_typePieces (first : String) (more : List (Joint × String)) :
    Flawless (typePieces first more) := by
  have hword : ∀ text cause shown,
      (tokenPiece Token.spelling (.word text)).kind ≠ .fault cause shown :=
    fun _ _ _ => by simp [tokenPiece]
  refine List.forall_mem_cons.2 ⟨hword first, fun p hp => ?_⟩
  obtain ⟨⟨j, text⟩, -, hp⟩ := List.mem_flatMap.1 hp
  rcases List.mem_pair.1 hp with rfl | rfl
  · cases j <;> simp [Joint.piece, tokenPiece, blank]
  · exact hword text

/-- A component type is cut into its pieces. -/
theorem pieces_joined (hfirst : isWord first = true) (hmore : ∀ w ∈ more, isWord w.2 = true) :
    pieces Token.cut (joined first more) = typePieces first more := by
  have hcuts : CutsOff Token.cut (typePieces first more) [] :=
    cutsOff_typePieces hfirst hmore fun _ _ h => by cases h
  have hpieces := Reading.pieces_of_cutsOff Token.cut_faithful hcuts
  rw [List.append_nil, textOf_typePieces] at hpieces
  rw [hpieces, pieces, List.length_nil, Reading.piecesUpTo, List.append_nil]

/-! ## Derivations -/

/-- The part of a component type that a joint is read as. -/
def Joint.parts : Joint → List TypePart
  | dot => [.dot]
  | space => []

/-- What further words of a component type are read as. -/
def furtherParts (more : List (Joint × String)) : List TypePart :=
  more.flatMap fun w => w.1.parts ++ [.word w.2]

theorem filterMap_typePieces (first : String) (more : List (Joint × String)) :
    (typePieces first more).filterMap Piece.token? =
      .word first :: (furtherParts more).map TypePart.token := by
  have hmore : (furtherPieces more).filterMap Piece.token? =
      (furtherParts more).map TypePart.token := by
    rw [furtherPieces, furtherParts, List.filterMap_flatMap, List.map_flatMap]
    refine List.flatMap_congr fun w _ => ?_
    obtain ⟨j, text⟩ := w
    cases j <;> rfl
  rw [typePieces, ← hmore]
  rfl

/-! ## Spans -/

theorem lexemesFrom_tokenPiece (offset : Nat) (t : Token) (ps : List (Piece Token)) :
    lexemesFrom offset (tokenPiece Token.spelling t :: ps) =
      ⟨t, offset, offset + width t.spelling⟩ ::
        lexemesFrom (offset + width t.spelling) ps := rfl

/-- The last word of a component type ends where the type does. -/
theorem stop_furtherPieces (more : List (Joint × String)) (span : Span) :
    (((lexemesFrom span.stop (furtherPieces more)).map Lexeme.span).getLastD span).stop =
      span.stop + width (textOf (furtherPieces more)) := by
  induction more generalizing span with
  | nil => rfl
  | cons w more ih =>
      obtain ⟨j, text⟩ := w
      rw [furtherPieces_cons, Reading.textOf_cons, Reading.textOf_cons, Text.width_append,
        Text.width_append, ← Nat.add_assoc, ← Nat.add_assoc]
      have hword := ih ⟨span.stop + width j.piece.text,
        span.stop + width j.piece.text + width text.toList⟩
      cases j with
      | dot =>
          rw [Joint.piece, lexemesFrom_tokenPiece, lexemesFrom_tokenPiece]
          simp only [List.map_cons, List.getLastD_cons]
          exact hword
      | space =>
          change (((lexemesFrom (span.stop + width blank.text)
            (tokenPiece Token.spelling (.word text) :: furtherPieces more)).map
              Lexeme.span).getLastD span).stop = _
          rw [lexemesFrom_tokenPiece]
          simp only [List.map_cons, List.getLastD_cons]
          exact hword

/-- The lexemes of a type cover the whole of it. -/
theorem coveredBy_typePieces (first : String) (more : List (Joint × String)) (offset : Nat) :
    Grammar.coveredBy (lexemesFrom offset (typePieces first more)) =
      ⟨offset, offset + width (joined first more)⟩ := by
  have hstop := stop_furtherPieces more ⟨offset, offset + width first.toList⟩
  rw [← textOf_typePieces, typePieces, Reading.textOf_cons, lexemesFrom_tokenPiece,
    Grammar.coveredBy, Text.width_append, ← Nat.add_assoc]
  exact congrArg (Span.mk offset) hstop

/-! ## Words -/

theorem isBlank_of_continuesWord {c : Char} (hc : continuesWord c = true) : isBlank c = false := by
  have hcode : (48 ≤ c.toNat ∧ c.toNat ≤ 57) ∨ (65 ≤ c.toNat ∧ c.toNat ≤ 90) ∨
      (97 ≤ c.toNat ∧ c.toNat ≤ 122) ∨ c.toNat = 95 := by
    rcases Bool.or_eq_true _ _ ▸ hc with hletter | hdigit
    · exact .inr (Reading.toNat_of_startsWord hletter)
    · exact .inl (Reading.toNat_of_isDigit hdigit)
  rw [← Bool.not_eq_true]
  intro hblank
  simp only [isBlank, Text.blankRanges, List.any_cons, List.any_nil, Bool.or_false,
    Bool.or_eq_true, Bool.and_eq_true, decide_eq_true_eq] at hblank
  omega

theorem wordsFrom_append {cs : List Char} (hcs : ∀ c ∈ cs, isBlank c = false)
    (word rest : List Char) :
    wordsFrom word (cs ++ rest) = wordsFrom (cs.reverse ++ word) rest := by
  induction cs generalizing word with
  | nil => rfl
  | cons c cs ih =>
      have hc : isBlank c = false := hcs c List.mem_cons_self
      rw [List.cons_append, wordsFrom, hc, if_neg (by decide),
        ih fun d hd => hcs d (List.mem_cons_of_mem c hd)]
      simp

private theorem wordsFrom_ne_nil {word : List Char} (hword : word ≠ []) (cs : List Char) :
    wordsFrom word cs ≠ [] := by
  induction cs generalizing word with
  | nil => simp [wordsFrom, hword]
  | cons c cs ih =>
      rw [wordsFrom]
      split
      · rw [if_neg (by simpa using hword)]
        simp
      · exact ih (by simp)

/-- A word holds no blank. -/
theorem isBlank_of_isWord {text : String} (htext : isWord text = true) :
    ∀ c ∈ text.toList, isBlank c = false := by
  obtain ⟨c, cs, hcons, hc, hcs, -⟩ := isPlainWord_eq_true_iff.1 htext
  rw [hcons]
  exact List.forall_mem_cons.2 ⟨isBlank_of_continuesWord (by simp [continuesWord, hc]),
    fun d hd => isBlank_of_continuesWord (hcs d hd)⟩

/-- A word is not empty. -/
theorem toList_ne_nil_of_isWord {text : String} (htext : isWord text = true) :
    text.toList ≠ [] := by
  obtain ⟨c, cs, hcons, -⟩ := isPlainWord_eq_true_iff.1 htext
  simp [hcons]

/-- Splitting further words at blanks and joining them with spaces changes nothing; `word` is what
stands before them. -/
theorem intercalate_wordsFrom (hmore : ∀ w ∈ more, isWord w.2 = true) {word : List Char}
    (hword : word ≠ []) :
    [' '].intercalate (wordsFrom word (more.flatMap fun w => w.1.char :: w.2.toList)) =
      word.reverse ++ more.flatMap fun w => w.1.char :: w.2.toList := by
  induction more generalizing word with
  | nil => simp [wordsFrom, hword, List.intercalate]
  | cons w more ih =>
      obtain ⟨j, text⟩ := w
      have htext : isWord text = true := hmore (j, text) List.mem_cons_self
      have hblank := isBlank_of_isWord htext
      have hne : text.toList.reverse ≠ [] := by simpa using toList_ne_nil_of_isWord htext
      have hrest := fun w hw => hmore w (List.mem_cons_of_mem (j, text) hw)
      rw [List.flatMap_cons, List.cons_append]
      cases j with
      | dot =>
          have hdot : isBlank '.' = false := by decide
          rw [Joint.char, wordsFrom, hdot, if_neg (by decide), wordsFrom_append hblank,
            ih hrest (by simp)]
          simp
      | space =>
          have hspace : isBlank ' ' = true := by decide
          have hopen : ¬ word.isEmpty = true := by simpa using hword
          rw [Joint.char, wordsFrom, if_pos hspace, if_neg hopen, wordsFrom_append hblank,
            List.append_nil, Text.intercalate_cons _ _ (wordsFrom_ne_nil hne _), ih hrest hne]
          simp

/-- A type of words with single spaces is written as its words with single spaces. -/
theorem intercalate_words_joined (hfirst : isWord first = true)
    (hmore : ∀ w ∈ more, isWord w.2 = true) :
    [' '].intercalate (words (joined first more)) = joined first more := by
  have hne : first.toList.reverse ≠ [] := by simpa using toList_ne_nil_of_isWord hfirst
  rw [joined, words, wordsFrom_append (isBlank_of_isWord hfirst), List.append_nil,
    intercalate_wordsFrom hmore hne, List.reverse_reverse]

end InfraGraph.Definition
