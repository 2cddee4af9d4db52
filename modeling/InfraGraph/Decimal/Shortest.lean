import InfraGraph.Decimal.Binary

/-!
# Shortest: the fewest digits that read back

The decimal text of a floating-point number has the fewest digits that still read back as that
number, and of those the ones nearest to it. The real numbers that read back as `m · 2 ^ q` form an
interval, whose ends belong to it exactly when `m` is even. On the grid of the multiples of `10 ^ k`
only the two neighbours of the number need to be looked at: if any point of the grid lies in the
interval, so does one of them. The first grid with a hit, from coarse to fine, gives the digits.
-/

namespace InfraGraph.Decimal

/-- What becomes of a number halfway between two candidates. -/
inductive Tie where
  | up
  | even
  deriving DecidableEq, Repr

/-- The interval of real numbers that read back as one number: `low`, `value` and `high`, all in
units of `2 ^ exponent`. -/
structure Interval where
  low : Nat
  value : Nat
  high : Nat
  closed : Bool
  exponent : Int
  deriving DecidableEq, Repr

/-- The interval around `m · 2 ^ q`, in quarters of its last place. -/
def Interval.around (m : Nat) (q : Int) (narrow : Bool) : Interval where
  low := 4 * m - (if narrow then 1 else 2)
  value := 4 * m
  high := 4 * m + 2
  closed := m % 2 == 0
  exponent := q - 2

/-- Whether a point lies in an interval whose ends have been scaled by `scale`. -/
def Interval.holds (i : Interval) (scale point : Nat) : Bool :=
  if i.closed then i.low * scale ≤ point && point ≤ i.high * scale
  else i.low * scale < point && point < i.high * scale

/-- The multiple of `10 ^ k` in the interval that is nearest to its value, if there is one. -/
def Interval.nearest? (i : Interval) (tie : Tie) (k : Int) : Option Nat :=
  let unit := Nat.pow 10 k.toNat * Nat.pow 2 (-i.exponent).toNat
  let scale := Nat.pow 2 i.exponent.toNat * Nat.pow 10 (-k).toNat
  let below := i.value * scale / unit
  let rest := i.value * scale % unit
  match i.holds scale (below * unit), i.holds scale ((below + 1) * unit) with
  | false, false => none
  | true, false => some below
  | false, true => some (below + 1)
  | true, true =>
    if 2 * rest < unit then some below
    else if unit < 2 * rest then some (below + 1)
    else
      match tie with
      | .up => some (below + 1)
      | .even => some (if below % 2 = 0 then below else below + 1)

/-- The decimal number `digits · 10 ^ exponent`. -/
structure Scientific where
  digits : Nat
  exponent : Int
  deriving DecidableEq, Repr

/-- The first hit on the grids from `10 ^ k` down, at most `places` of them. -/
def Interval.search (i : Interval) (tie : Tie) : Nat → Int → Scientific
  | 0, k =>
    ⟨i.value * (Nat.pow 2 i.exponent.toNat * Nat.pow 10 (-k).toNat) /
      (Nat.pow 10 k.toNat * Nat.pow 2 (-i.exponent).toNat), k⟩
  | places + 1, k =>
    match i.nearest? tie k with
    | some digits => ⟨digits, k⟩
    | none => i.search tie places (k - 1)

/-- The shortest decimal number that reads back as `m · 2 ^ q`. Seventeen digits are always enough;
the search starts at a power of ten above the number, at most two places too high. -/
def shortest (tie : Tie) (m : Nat) (q : Int) (narrow : Bool) : Scientific :=
  (Interval.around m q narrow).search tie 21 (((Nat.log2 m : Int) + q + 1) * 30103 / 100000 + 1)

end InfraGraph.Decimal
