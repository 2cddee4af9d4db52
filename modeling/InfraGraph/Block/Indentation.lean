import InfraGraph.Text.Blank
import InfraGraph.Text.Search

/-!
# Indentation of code blocks

A code block may be indented as a whole. Its text is trimmed, which takes the indentation off the
first line, and the indentation of the second line is taken off that line and the following ones, as
far as they have it; what a line is indented further is kept.
-/

namespace InfraGraph.Block

/-- The number of spaces that a line starts with. -/
def indentation (line : List Char) : Nat := (line.takeWhile (· = ' ')).length

/-- A line without its first spaces, at most as many as given. -/
def unindent (padding : Nat) (line : List Char) : List Char :=
  line.drop (min (indentation line) padding)

/-- The lines of a code block without the indentation of the second one. -/
def unindentLines : List (List Char) → List (List Char)
  | first :: second :: rest =>
    first :: (second :: rest).map (unindent (indentation second))
  | lines => lines

/-- A text without a fence at its end. -/
def withoutFence (text : List Char) : List Char :=
  if ['\x60', '\x60', '\x60'].isSuffixOf text then text.take (text.length - 3) else text

/-- The text of a code block as it is read. -/
def normalize (text : List Char) : List Char :=
  ['\n'].intercalate (unindentLines (Text.splitOn ['\n'] (withoutFence (Text.trim text))))

end InfraGraph.Block
