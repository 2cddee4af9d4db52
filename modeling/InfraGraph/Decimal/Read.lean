import InfraGraph.Decimal.Binary
import InfraGraph.Decimal.Integer

/-!
# Read: numbers from decimal text

A number may carry a sign. An integer is a sign and digits and must fit into 64 bits. A
floating-point number has digits with an optional point, at least one digit in all, and an optional
exponent; `inf`, `infinity` and `nan` are read in any case. It is rounded to the nearest number.
-/

namespace InfraGraph.Decimal

/-- Whether a text starts with a minus sign, and the text after its sign, if it has one. -/
def splitSign : List Char → Bool × List Char
  | '-' :: cs => (true, cs)
  | '+' :: cs => (false, cs)
  | cs => (false, cs)

/-- The digits at the start of a text. -/
def leadingDigits (cs : List Char) : List Char := cs.takeWhile Char.isDigit

/-- What follows the digits at the start of a text. -/
def afterDigits (cs : List Char) : List Char := cs.dropWhile Char.isDigit

/-- The digits at the start of a text and what follows them make the text. -/
theorem leadingDigits_append_afterDigits (cs : List Char) :
    leadingDigits cs ++ afterDigits cs = cs :=
  List.takeWhile_append_dropWhile

/-- Whether a text is a non-empty string of digits. -/
def isDigits (cs : List Char) : Bool := !cs.isEmpty && cs.all Char.isDigit

/-- The integer of 64 bits that a text writes. -/
def readWord? (text : List Char) : Option Int64 :=
  let (negative, ds) := splitSign text
  if isDigits ds then
    narrow? (if negative then -(valueOf ds : Int) else valueOf ds)
  else none

/-- The exponent that a text writes: nothing, or a mark and an integer. -/
def readExponent? : List Char → Option Int
  | [] => some 0
  | c :: cs =>
    if c = 'e' ∨ c = 'E' then
      let (negative, ds) := splitSign cs
      if isDigits ds then some (if negative then -(valueOf ds : Int) else valueOf ds) else none
    else none

/-- The number that a text without a sign writes in digits. -/
def readUnsigned? (negative : Bool) (cs : List Char) : Option Float :=
  let whole := leadingDigits cs
  match afterDigits cs with
  | '.' :: rest =>
    let fraction := leadingDigits rest
    if whole.isEmpty && fraction.isEmpty then none
    else
      (readExponent? (afterDigits rest)).map fun e =>
        ofDecimal negative (valueOf (whole ++ fraction)) (e - fraction.length)
  | rest =>
    if whole.isEmpty then none
    else (readExponent? rest).map fun e => ofDecimal negative (valueOf whole) e

/-- The floating-point number that a text writes. -/
def readFloat? (text : List Char) : Option Float :=
  let (negative, cs) := splitSign text
  match String.ofList (cs.map Char.toLower) with
  | "inf" | "infinity" => some (if negative then -(1.0 / 0.0) else 1.0 / 0.0)
  | "nan" => some (0.0 / 0.0)
  | _ => readUnsigned? negative cs

end InfraGraph.Decimal
