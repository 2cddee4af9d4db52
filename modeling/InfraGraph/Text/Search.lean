/-!
# Search: separators inside a text

Splitting a text at a separator, and with it searching and replacing. Separators are found from the
left and do not overlap. An empty separator stands before every character and at both ends.
-/

namespace InfraGraph.Text

/-- The pieces of a text at a separator `sep` that is not empty, after the piece `piece`, which has
begun already and is held backwards; the first `skip` characters belong to a separator that has
been met. -/
def splitFrom (sep : List Char) : Nat → List Char → List Char → List (List Char)
  | _, piece, [] => [piece.reverse]
  | skip + 1, piece, _ :: cs => splitFrom sep skip piece cs
  | 0, piece, c :: cs =>
    if sep.isPrefixOf (c :: cs) then piece.reverse :: splitFrom sep (sep.length - 1) [] cs
    else splitFrom sep 0 (c :: piece) cs

/-- The pieces of a text between the occurrences of a separator. -/
def splitOn (sep cs : List Char) : List (List Char) :=
  if sep.isEmpty then [] :: (cs.map fun c => [c]) ++ [[]] else splitFrom sep 0 [] cs

/-- Whether a text occurs in another. -/
def contains (part : List Char) : List Char → Bool
  | [] => part.isEmpty
  | c :: cs => part.isPrefixOf (c :: cs) || contains part cs

/-- A text with every occurrence of `old` written as `new`. -/
def replace (old new cs : List Char) : List Char := new.intercalate (splitOn old cs)

theorem intercalate_cons (sep piece : List Char) {pieces : List (List Char)} (h : pieces ≠ []) :
    sep.intercalate (piece :: pieces) = piece ++ sep ++ sep.intercalate pieces := by
  cases pieces with
  | nil => exact absurd rfl h
  | cons p ps => simp [List.intercalate, List.intersperse]

end InfraGraph.Text
