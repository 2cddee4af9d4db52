import InfraGraph.Text.Span

/-!
# Positions: line and column of an offset

A position is counted for people: lines and columns start at one, and a column counts characters,
not bytes. Reading a character moves to the next column, reading a newline to the next line.
-/

namespace InfraGraph.Text

/-- A place in a text, both numbers counted from one. -/
structure Position where
  line : Nat
  column : Nat
  deriving DecidableEq, Repr, Inhabited

namespace Position

/-- The place where a text begins. -/
def first : Position := ⟨1, 1⟩

/-- The place reached by reading one character. -/
def advance (place : Position) (c : Char) : Position :=
  if c = '\n' then ⟨place.line + 1, 1⟩ else ⟨place.line, place.column + 1⟩

/-- The place reached by reading a whole text. -/
def after (cs : List Char) : Position := cs.foldl advance first

/-- One more character advances the position by it. -/
theorem after_concat (cs : List Char) (c : Char) : after (cs ++ [c]) = (after cs).advance c := by
  simp [after]

/-- The place of a byte offset in a text; an offset past the end means the end. -/
def ofOffset (cs : List Char) (offset : Nat) : Position := after (takeBytes offset cs)

/-- The position of an offset is the one after the text before it. -/
theorem ofOffset_width (xs ys : List Char) : ofOffset (xs ++ ys) (width xs) = after xs := by
  simp [ofOffset]

end Position

end InfraGraph.Text
