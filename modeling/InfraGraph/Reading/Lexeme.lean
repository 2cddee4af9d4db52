import InfraGraph.Reading.Error

/-!
# Lexemes: the pieces of a text

A text is cut into consecutive pieces. A piece is a gap (blanks, a comment), a token or a fault, and
it keeps the characters it was cut from, so nothing of the text is lost; the span of a piece follows
from the widths of the pieces before it. A text with a fault has no tokens, only errors.

## Main results

* `flatMap_pieces` — the pieces of a text, put together again, are the text.
-/

namespace InfraGraph.Reading

open InfraGraph.Text (Span width)

/-- What a piece of a text is. -/
inductive PieceKind (τ : Type) where
  /-- It separates tokens and means nothing. -/
  | gap
  | token (t : τ)
  /-- It cannot be read; `shown` is the first part of it, which the error points at. -/
  | fault (cause : Cause) (shown : List Char)

/-- A piece of a text. -/
structure Piece (τ : Type) where
  text : List Char
  kind : PieceKind τ

/-- A token and the span it was read from. -/
structure Lexeme (τ : Type) where
  token : τ
  span : Span

/-- A rule that cuts the first piece off a text with the given first character and remaining
characters, and gives what is left. -/
abbrev Cut (τ : Type) := Char → List Char → Piece τ × List Char

variable {τ : Type}

/-- A cut is faithful if the piece and what is left are the text and the piece is not empty. -/
def Cut.Faithful (cut : Cut τ) : Prop :=
  ∀ c cs, (cut c cs).1.text ++ (cut c cs).2 = c :: cs ∧ (cut c cs).1.text ≠ []

/-- The first pieces of a text, at most as many as the bound says. -/
def piecesUpTo (cut : Cut τ) : Nat → List Char → List (Piece τ)
  | 0, _ => []
  | _ + 1, [] => []
  | n + 1, c :: cs => (cut c cs).1 :: piecesUpTo cut n (cut c cs).2

/-- The pieces of a text. There are no more of them than characters. -/
def pieces (cut : Cut τ) (cs : List Char) : List (Piece τ) := piecesUpTo cut cs.length cs

theorem flatMap_piecesUpTo {cut : Cut τ} (h : cut.Faithful) (n : Nat) (cs : List Char)
    (hn : cs.length ≤ n) : (piecesUpTo cut n cs).flatMap Piece.text = cs := by
  induction n generalizing cs with
  | zero =>
    cases cs with
    | nil => rfl
    | cons c cs => simp at hn
  | succ n ih =>
    cases cs with
    | nil => rfl
    | cons c cs =>
      obtain ⟨happ, hne⟩ := h c cs
      have hlen := congrArg List.length happ
      have hpos : 0 < (cut c cs).1.text.length := List.length_pos_iff.2 hne
      simp only [List.length_append, List.length_cons] at hlen hn
      rw [piecesUpTo, List.flatMap_cons, ih _ (by omega), happ]

/-- The pieces of a text make the text. -/
theorem flatMap_pieces {cut : Cut τ} (h : cut.Faithful) (cs : List Char) :
    (pieces cut cs).flatMap Piece.text = cs :=
  flatMap_piecesUpTo h cs.length cs (Nat.le_refl _)

/-! ## Tokens and faults with their places -/

/-- The tokens among pieces that start at an offset. -/
def lexemesFrom : Nat → List (Piece τ) → List (Lexeme τ)
  | _, [] => []
  | offset, piece :: rest =>
    let stop := offset + width piece.text
    match piece.kind with
    | .token t => ⟨t, offset, stop⟩ :: lexemesFrom stop rest
    | _ => lexemesFrom stop rest

/-- The errors among pieces that start at an offset. -/
def faultsFrom : Nat → List (Piece τ) → List SyntaxError
  | _, [] => []
  | offset, piece :: rest =>
    let stop := offset + width piece.text
    match piece.kind with
    | .fault cause shown => ⟨⟨offset, offset + width shown⟩, cause, []⟩ :: faultsFrom stop rest
    | _ => faultsFrom stop rest

/-- The lexemes of a text, or all its faults. -/
def lexemes (cut : Cut τ) (cs : List Char) : Except (List SyntaxError) (List (Lexeme τ)) :=
  let ps := pieces cut cs
  match faultsFrom 0 ps with
  | [] => .ok (lexemesFrom 0 ps)
  | faults => .error faults

end InfraGraph.Reading
