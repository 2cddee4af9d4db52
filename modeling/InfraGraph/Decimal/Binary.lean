/-!
# Binary: floating-point numbers taken apart

A finite floating-point number is `± m · 2 ^ q` with a natural number `m`. The texts of numbers and
the remainder of a division are computed exactly, on `m` and `q`; this module takes a number apart
and puts one together.
-/

namespace InfraGraph.Decimal

/-- A floating-point number by its parts. -/
inductive Parts where
  | nan
  | infinite (negative : Bool)
  /-- The number `± mantissa · 2 ^ exponent`; `narrow` says that the next smaller number is half as
  far away as the next larger one. -/
  | finite (negative : Bool) (mantissa : Nat) (exponent : Int) (narrow : Bool)
  deriving DecidableEq, Repr

/-- The parts of the number with the given 64 bits: sign, eleven bits of exponent, 52 of fraction.
-/
def partsOfBits (bits : Nat) : Parts :=
  let negative := bits / Nat.pow 2 63 % 2 == 1
  let scale : Nat := bits / Nat.pow 2 52 % Nat.pow 2 11
  let fraction : Nat := bits % Nat.pow 2 52
  if scale = 2047 then
    if fraction = 0 then .infinite negative else .nan
  else if scale = 0 then .finite negative fraction (-1074) false
  else
    .finite negative (Nat.pow 2 52 + fraction) ((scale : Int) - 1075) (fraction == 0 && scale > 1)

/-- The parts of a number. -/
def parts (x : Float) : Parts := partsOfBits x.toBits.toNat

/-- The number `± mantissa · 2 ^ exponent` for a mantissa below `2 ^ 53` and an exponent for which
it is a number; zero keeps its sign. -/
def compose (negative : Bool) (mantissa : Nat) (exponent : Int) : Float :=
  let magnitude := Float.scaleB (Float.ofNat mantissa) exponent
  if negative then -magnitude else magnitude

/-- The floating-point number nearest to an integer; of two, the one with an even mantissa. The
magnitude is rounded, so both signs are rounded alike. -/
def widen (n : Int64) : Float :=
  let magnitude := n.toInt.natAbs.toUInt64.toFloat
  if n.toInt < 0 then -magnitude else magnitude

/-- The remainder of the division of two numbers, rounded toward zero: it has the sign of the
dividend and is smaller than the divisor. It is exact, so it is computed on the mantissas, brought
to one exponent. -/
def remainder (x y : Float) : Float :=
  match parts x, parts y with
  | .finite negative m p _, .finite _ n q _ =>
    if n = 0 then 0.0 / 0.0
    else
      let low := min p q
      compose negative (m * Nat.pow 2 (p - low).toNat % (n * Nat.pow 2 (q - low).toNat)) low
  | .finite .., .infinite _ => x
  | _, _ => 0.0 / 0.0

/-- The decimal number `± mantissa · 10 ^ exponent` rounded to the nearest floating-point number. A
number whose decimal point stands far outside the range is infinite or zero whatever its digits
are. -/
def ofDecimal (negative : Bool) (mantissa : Nat) (exponent : Int) : Float :=
  let point := (Nat.log2 mantissa : Int) * 30103 / 100000 + exponent
  let magnitude :=
    if mantissa = 0 then 0.0
    else if point > 400 then 1.0 / 0.0
    else if point < -400 then 0.0
    else if exponent < 0 then Float.ofScientific mantissa true exponent.natAbs
    else Float.ofScientific mantissa false exponent.natAbs
  if negative then -magnitude else magnitude

end InfraGraph.Decimal
