import InfraGraph.Decimal.Digits

/-!
# Integers of 64 bits

Integers of the language have 64 bits and never wrap: an operation computes in the integers, and
`narrow?` gives the word for the result if there is one.

## Main results

* `narrow?_eq_some_iff` — `narrow?` gives exactly the word with the given value.
* `narrow?_eq_none_iff` — it refuses exactly the integers out of range.
-/

namespace InfraGraph.Decimal

/-- The smallest integer of 64 bits. -/
def minWord : Int := -9223372036854775808

/-- The largest integer of 64 bits. -/
def maxWord : Int := 9223372036854775807

/-- The word whose value is `n`, if `n` fits into 64 bits. -/
def narrow? (n : Int) : Option Int64 :=
  if minWord ≤ n ∧ n ≤ maxWord then some (Int64.ofInt n) else none

/-- A number that fits into a word is kept by it. -/
theorem toInt_ofInt {n : Int} (lo : minWord ≤ n) (hi : n ≤ maxWord) :
    (Int64.ofInt n).toInt = n :=
  Int64.toInt_ofInt_of_le lo (Int.lt_add_one_of_le hi)

theorem minWord_le_toInt (w : Int64) : minWord ≤ w.toInt := Int64.le_toInt w

theorem toInt_le_maxWord (w : Int64) : w.toInt ≤ maxWord := Int.le_of_lt_add_one (Int64.toInt_lt w)

/-- A number is narrowed to the word that stands for it. -/
theorem narrow?_eq_some_iff {n : Int} {w : Int64} : narrow? n = some w ↔ w.toInt = n := by
  unfold narrow?
  split
  · rename_i h
    rw [Option.some.injEq]
    constructor
    · intro e
      rw [← e, toInt_ofInt h.1 h.2]
    · intro e
      rw [← e, Int64.ofInt_toInt]
  · rename_i h
    constructor
    · intro e
      cases e
    · intro e
      exact absurd ⟨e ▸ minWord_le_toInt w, e ▸ toInt_le_maxWord w⟩ h

/-- Only a number below the smallest word or above the largest one cannot be narrowed. -/
theorem narrow?_eq_none_iff {n : Int} : narrow? n = none ↔ n < minWord ∨ maxWord < n := by
  unfold narrow?
  split <;> simp <;> omega

/-- The decimal text of a word. -/
def wordText (w : Int64) : List Char := intText w.toInt

end InfraGraph.Decimal
