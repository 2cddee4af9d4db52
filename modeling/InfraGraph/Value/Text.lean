import InfraGraph.Decimal.Integer
import InfraGraph.Decimal.Layout
import InfraGraph.Value.Basic

/-!
# The text of a value

How a value reads when it is turned into text: a string as it is, without quotes, at every depth; a
list in brackets and a map in braces, parts separated by a comma and a space.
-/

namespace InfraGraph.Value

/-- Numbers in a text are always written in place, whole ones without a point; of two shortest
candidates equally near, the larger magnitude is written. -/
def numberLayout : Decimal.Layout where
  tie := .up
  positional := none
  pointed := false
  nan := "NaN"
  infinity := "inf"
  minusInfinity := "-inf"

/-- The text of a floating-point number. -/
def floatText (x : Float) : String := String.ofList (numberLayout.write x)

/-- The text of an integer. -/
def intText (n : Int64) : String := String.ofList (Decimal.wordText n)

mutual

/-- The text of a value. -/
def text : Value → String
  | null => "null"
  | bool b => if b then "true" else "false"
  | int n => intText n
  | float x => floatText x
  | string s => s
  | list items => "[" ++ ", ".intercalate (textItems items) ++ "]"
  | map entries => "\x7b" ++ ", ".intercalate (textEntries entries) ++ "\x7d"

/-- The texts of the items of a list. -/
def textItems : List Value → List String
  | [] => []
  | v :: rest => text v :: textItems rest

/-- The texts of the entries of a map, key first. -/
def textEntries : List (String × Value) → List String
  | [] => []
  | (k, v) :: rest => (k ++ ": " ++ text v) :: textEntries rest

end

end InfraGraph.Value
