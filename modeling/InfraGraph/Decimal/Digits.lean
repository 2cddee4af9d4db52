/-!
# Digits: whole numbers in decimal

The decimal text of a natural number or an integer, and the value of a string of digits. Only the
ASCII digits `0` to `9` count as digits.

## Main results

* `valueOf_digits` — the text of a number reads back as that number.
* `isDigit_of_mem_digits`, `digits_ne_nil` — the text is a non-empty string of digits.
-/

namespace InfraGraph.Decimal

/-- The character of a digit below ten. -/
def digitChar (d : Nat) : Char := Char.ofNat (48 + d)

/-- The value of a digit character. -/
def digitValue (c : Char) : Nat := c.toNat - 48

/-- The value of a string of digits that continues a number. -/
def valueFrom (n : Nat) (cs : List Char) : Nat := cs.foldl (fun v c => 10 * v + digitValue c) n

/-- The value of a string of digits. -/
def valueOf (cs : List Char) : Nat := valueFrom 0 cs

/-- The decimal text of a natural number, without leading zeros. -/
def digits (n : Nat) : List Char :=
  if n < 10 then [digitChar n] else digits (n / 10) ++ [digitChar (n % 10)]
termination_by n
decreasing_by omega

/-- The decimal text of an integer. -/
def intText (n : Int) : List Char :=
  if n < 0 then '-' :: digits n.natAbs else digits n.natAbs

/-- The character of a digit is a digit of this value. -/
theorem digitChar_cases {d : Nat} (h : d < 10) :
    digitValue (digitChar d) = d ∧ (digitChar d).isDigit = true := by
  have : ∀ k < 10, digitValue (digitChar k) = k ∧ (digitChar k).isDigit = true := by decide
  exact this d h

theorem valueFrom_append (n : Nat) (xs ys : List Char) :
    valueFrom n (xs ++ ys) = valueFrom (valueFrom n xs) ys := by
  simp [valueFrom]

/-- A number is read back from its digits. -/
theorem valueOf_digits (n : Nat) : valueOf (digits n) = n := by
  induction n using Nat.strongRecOn with
  | ind n ih =>
    rw [digits]
    split
    · rename_i h
      simp [valueOf, valueFrom, (digitChar_cases h).1]
    · rename_i h
      have hd : n % 10 < 10 := Nat.mod_lt _ (by decide)
      have := ih (n / 10) (by omega)
      rw [valueOf, valueFrom_append]
      simp only [valueOf] at this
      rw [this]
      simp only [valueFrom, List.foldl_cons, List.foldl_nil, (digitChar_cases hd).1]
      omega

theorem digits_ne_nil (n : Nat) : digits n ≠ [] := by
  rw [digits]
  split <;> simp

theorem isDigit_of_mem_digits {n : Nat} {c : Char} (h : c ∈ digits n) : c.isDigit = true := by
  induction n using Nat.strongRecOn with
  | ind n ih =>
    rw [digits] at h
    split at h
    · rename_i hn
      simp only [List.mem_singleton] at h
      exact h ▸ (digitChar_cases hn).2
    · rcases List.mem_append.1 h with h | h
      · exact ih (n / 10) (by omega) h
      · simp only [List.mem_singleton] at h
        exact h ▸ (digitChar_cases (Nat.mod_lt _ (by decide))).2

end InfraGraph.Decimal
