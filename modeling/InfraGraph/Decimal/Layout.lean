import InfraGraph.Decimal.Digits
import InfraGraph.Decimal.Shortest

/-!
# Layout: how the digits of a number are written

The shortest digits of a number are one thing, where the decimal point goes another. A `Layout`
holds the decisions of one output format; `Layout.write` carries them out.
-/

namespace InfraGraph.Decimal

/-- The decisions of an output format for numbers. -/
structure Layout where
  /-- What a number halfway between two shortest candidates becomes. -/
  tie : Tie
  /-- The decimal exponents that are written out in place, from the first up to the second, or all
  of them. -/
  positional : Option (Int × Int)
  /-- Whether a whole number still shows `.0`. -/
  pointed : Bool
  /-- The texts of what is no finite number. -/
  nan : String
  infinity : String
  minusInfinity : String

/-- Digits with the decimal point `exponent` places to the right of their end. -/
def inPlace (pointed : Bool) (ds : List Char) (exponent : Int) : List Char :=
  if 0 ≤ exponent then
    ds ++ List.replicate exponent.toNat '0' ++ (if pointed then ['.', '0'] else [])
  else
    let places := exponent.natAbs
    if places < ds.length then
      ds.take (ds.length - places) ++ '.' :: ds.drop (ds.length - places)
    else '0' :: '.' :: (List.replicate (places - ds.length) '0' ++ ds)

/-- Digits with one before the decimal point, and the exponent with its sign. -/
def withExponent (ds : List Char) (lead : Int) : List Char :=
  (match ds with
    | [] => []
    | [d] => [d]
    | d :: rest => d :: '.' :: rest) ++
    'e' :: (if lead < 0 then '-' else '+') :: digits lead.natAbs

/-- The digits of a number that is not zero, as the layout places them. -/
def Layout.place (layout : Layout) (number : Scientific) : List Char :=
  let ds := digits number.digits
  let lead := number.exponent + ds.length - 1
  match layout.positional with
  | none => inPlace layout.pointed ds number.exponent
  | some (low, high) =>
    if low ≤ lead ∧ lead < high then inPlace layout.pointed ds number.exponent
    else withExponent ds lead

/-- The text of a number. -/
def Layout.write (layout : Layout) (x : Float) : List Char :=
  match parts x with
  | .nan => layout.nan.toList
  | .infinite negative =>
    if negative then layout.minusInfinity.toList else layout.infinity.toList
  | .finite negative m q narrow =>
    (if negative then ['-'] else []) ++
      (if m = 0 then inPlace layout.pointed ['0'] 0
      else layout.place (shortest layout.tie m q narrow))

end InfraGraph.Decimal
