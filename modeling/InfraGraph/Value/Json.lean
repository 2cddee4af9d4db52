import InfraGraph.Decimal.Integer
import InfraGraph.Decimal.Layout
import InfraGraph.Value.Basic

/-!
# The JSON text of a value

Values are published as JSON, compact or indented by two spaces a level. An integer is written
without a point and a floating-point number always with a point or an exponent, so the two can be
told apart; what is no finite number is written `null`. In a string the quote, the backslash and the
control characters below the space are escaped, and nothing else.
-/

namespace InfraGraph.Value

/-- Numbers in JSON keep their point, are written in place from `1e-5` up to below `1e16`, and of
two shortest candidates equally near take the one with the even last digit. -/
def jsonNumberLayout : Decimal.Layout where
  tie := .even
  positional := some (-5, 16)
  pointed := true
  nan := "null"
  infinity := "null"
  minusInfinity := "null"

/-! ## Strings -/

/-- A hexadecimal digit. -/
def hexDigit (n : Nat) : Char := if n < 10 then Char.ofNat (48 + n) else Char.ofNat (87 + n)

/-- One character of a string as JSON writes it. -/
def jsonChar (c : Char) : List Char :=
  if c = '"' then ['\\', '"']
  else if c = '\\' then ['\\', '\\']
  else if c = '\n' then ['\\', 'n']
  else if c = '\t' then ['\\', 't']
  else if c = '\r' then ['\\', 'r']
  else if c = Char.ofNat 8 then ['\\', 'b']
  else if c = Char.ofNat 12 then ['\\', 'f']
  else if c.toNat < 32 then
    ['\\', 'u', '0', '0', hexDigit (c.toNat / 16), hexDigit (c.toNat % 16)]
  else [c]

/-- A string as JSON writes it. -/
def jsonString (s : String) : String :=
  String.ofList ('"' :: s.toList.flatMap jsonChar ++ ['"'])

/-! ## The compact form -/

mutual

/-- The JSON text of a value without blanks. -/
def json : Value → String
  | null => "null"
  | bool b => if b then "true" else "false"
  | int n => String.ofList (Decimal.wordText n)
  | float x => String.ofList (jsonNumberLayout.write x)
  | string s => jsonString s
  | list items => "[" ++ ",".intercalate (jsonItems items) ++ "]"
  | map entries => "\x7b" ++ ",".intercalate (jsonEntries entries) ++ "\x7d"

/-- The JSON texts of the items of a list. -/
def jsonItems : List Value → List String
  | [] => []
  | v :: rest => json v :: jsonItems rest

/-- The JSON texts of the members of an object. -/
def jsonEntries : List (String × Value) → List String
  | [] => []
  | (k, v) :: rest => (jsonString k ++ ":" ++ json v) :: jsonEntries rest

end

/-! ## The indented form -/

/-- A newline and the indentation of a level. -/
def newline (level : Nat) : String := "\n" ++ String.ofList (List.replicate (2 * level) ' ')

/-- Parts between two marks, each on a line of its own one level further in; nothing stands between
the marks if there are no parts. -/
def block (opening closing : String) (level : Nat) (parts : List String) : String :=
  if parts.isEmpty then opening ++ closing
  else
    opening ++ newline (level + 1) ++ ("," ++ newline (level + 1)).intercalate parts ++
      newline level ++ closing

mutual

/-- The JSON text of a value that stands at a level of indentation. -/
def indented (level : Nat) : Value → String
  | null => "null"
  | bool b => if b then "true" else "false"
  | int n => String.ofList (Decimal.wordText n)
  | float x => String.ofList (jsonNumberLayout.write x)
  | string s => jsonString s
  | list items => block "[" "]" level (indentedItems (level + 1) items)
  | map entries => block "\x7b" "\x7d" level (indentedEntries (level + 1) entries)

/-- The texts of the items of a list at a level. -/
def indentedItems (level : Nat) : List Value → List String
  | [] => []
  | v :: rest => indented level v :: indentedItems level rest

/-- The texts of the members of an object at a level. -/
def indentedEntries (level : Nat) : List (String × Value) → List String
  | [] => []
  | (k, v) :: rest => (jsonString k ++ ": " ++ indented level v) :: indentedEntries level rest

end

/-- The JSON text of a value over several lines. -/
def prettyJson (value : Value) : String := indented 0 value

end InfraGraph.Value
