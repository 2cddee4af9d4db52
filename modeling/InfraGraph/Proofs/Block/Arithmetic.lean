import InfraGraph.Block.Evaluation
import InfraGraph.Proofs.Effect
import Mathlib.Data.Rat.Floor
import Mathlib.Tactic.Linarith

/-!
# Integer arithmetic is exact or refused

Operators on integers compute in the integers and narrow the result to a word of 64 bits. What an
expression evaluates to is therefore the mathematical result or an overflow, and nothing wraps
around. Sums, differences, products and negations leave the range of words in many ways. A quotient
leaves it in one, the smallest integer divided by -1, and a remainder never does; but the two are
refused together.

## Main results

* `tdiv_fits_iff` — which quotients of words are words.
* `truncatedDivision_tdiv` — rounding toward zero determines quotient and remainder.
* `evaluate_intArithmetic` — what expressions over integers evaluate to.
-/

namespace InfraGraph.Block

open Decimal Effect

/-! ## Operators in expressions -/

section Runs

variable {around : Surroundings} {x y : Expr} {u v : Value} {f f₁ f₂ : Frame}

theorem run_ofResult {α : Type} (r : Except EvalError α) (f : Frame) :
    (Step.ofResult r).run f = (r, f) := by
  cases r <;> rfl

/-- A literal is evaluated to its value and leaves the frame as it is. -/
theorem run_evaluate_literal (around : Surroundings) (v : Value) (f : Frame) :
    (evaluate around (.literal v)).run f = (.ok v, f) := by
  rw [evaluate]
  rfl

/-- A unary operator is applied to the value of its operand. -/
theorem run_evaluate_unary (op : UnaryOp) (hx : (evaluate around x).run f = (.ok u, f₁)) :
    (evaluate around (.unary op x)).run f = (unary op u, f₁) := by
  rw [evaluate]
  simp only [run_bind, hx, run_ofResult]

/-- The logical operators are the exception, since they may skip their right operand. -/
theorem run_evaluate_binary {op : BinaryOp} (hand : op ≠ .and) (hor : op ≠ .or)
    (hx : (evaluate around x).run f = (.ok u, f₁))
    (hy : (evaluate around y).run f₁ = (.ok v, f₂)) :
    (evaluate around (.binary op x y)).run f = (binary op u v, f₂) := by
  rw [evaluate]
  · simp only [run_bind, hx, hy, run_ofResult]
  · exact hand
  · exact hor

end Runs

/-! ## Exact results -/

/-- An integer has 64 bits. -/
def Fits (n : Int) : Prop := -2 ^ 63 ≤ n ∧ n < 2 ^ 63

instance (n : Int) : Decidable (Fits n) := inferInstanceAs (Decidable (_ ∧ _))

/-- The number that a word stands for has 64 bits. -/
theorem fits_toInt (w : Int64) : Fits w.toInt := ⟨w.le_toInt, w.toInt_lt⟩

/-- A result is the integer `n` if that has 64 bits, and is refused otherwise. -/
structure Exact (result : Except EvalError Value) (n : Int) : Prop where
  value : Fits n → ∃ w : Int64, w.toInt = n ∧ result = .ok (.int w)
  refused : ¬ Fits n → result = .error .overflow

/-- A number with 64 bits is given as it is, and any other one is refused. -/
theorem exact_fitting (n : Int) : Exact (fitting n) n where
  value h := by
    have hnarrow : narrow? n = some (Int64.ofInt n) :=
      narrow?_eq_some_iff.2 (Int64.toInt_ofInt_of_le h.1 h.2)
    exact ⟨Int64.ofInt n, narrow?_eq_some_iff.1 hnarrow, by rw [fitting, hnarrow]⟩
  refused h := by
    have hnarrow : narrow? n = none := by
      rw [narrow?_eq_none_iff, minWord, maxWord]
      unfold Fits at h
      omega
    rw [fitting, hnarrow]

/-- A negation and the difference from zero are the same integer. -/
theorem unary_neg_eq_binary_sub (a : Int64) :
    unary .neg (.int a) = binary .sub (.int 0) (.int a) := by
  show fitting (-a.toInt) = fitting ((0 : Int64).toInt - a.toInt)
  rw [Int64.toInt_zero, Int.zero_sub]

/-! ## Quotients and remainders -/

/-- A number rounded toward zero. -/
def towardZero (x : ℚ) : ℤ := if 0 ≤ x then ⌊x⌋ else ⌈x⌉

/-- The quotient `q` and the remainder `r` of a division that rounds toward zero. -/
structure TruncatedDivision (a b q r : Int) : Prop where
  identity : a = q * b + r
  small : |r| < |b|
  sign : r = 0 ∨ r.sign = a.sign
  rounded : q = towardZero ((a : ℚ) / b)

/-- A remainder that is zero or has the sign of the dividend is on the same side of zero. -/
theorem sign_cases {a r : Int} (hsign : r = 0 ∨ r.sign = a.sign) :
    (0 ≤ a → 0 ≤ r) ∧ (a ≤ 0 → r ≤ 0) := by
  rcases hsign with rfl | hsign
  · exact ⟨fun _ => le_rfl, fun _ => le_rfl⟩
  · refine ⟨fun ha => Int.sign_nonneg_iff.1 ?_, fun ha => Int.sign_nonpos_iff.1 ?_⟩
    · rw [hsign]
      exact Int.sign_nonneg_iff.2 ha
    · rw [hsign]
      exact Int.sign_nonpos_iff.2 ha

/-- What a quotient leaves over is on the same side of zero as the quotient. -/
theorem fraction_cases {a b r : Int} (hsign : r = 0 ∨ r.sign = a.sign) :
    (0 ≤ (a : ℚ) / b → 0 ≤ (r : ℚ) / b) ∧ ((a : ℚ) / b ≤ 0 → (r : ℚ) / b ≤ 0) := by
  obtain ⟨hnonneg, hnonpos⟩ := sign_cases hsign
  have hup : (0 : ℚ) ≤ a → (0 : ℚ) ≤ r := fun ha => by exact_mod_cast hnonneg (by exact_mod_cast ha)
  have hdown : (a : ℚ) ≤ 0 → (r : ℚ) ≤ 0 := fun ha => by
    exact_mod_cast hnonpos (by exact_mod_cast ha)
  constructor
  · intro hquotient
    rcases div_nonneg_iff.1 hquotient with ⟨ha, hb⟩ | ⟨ha, hb⟩
    · exact div_nonneg (hup ha) hb
    · exact div_nonneg_of_nonpos (hdown ha) hb
  · intro hquotient
    rcases div_nonpos_iff.1 hquotient with ⟨ha, hb⟩ | ⟨ha, hb⟩
    · exact div_nonpos_of_nonneg_of_nonpos (hup ha) hb
    · exact div_nonpos_of_nonpos_of_nonneg (hdown ha) hb

/-- A remainder that is small and has the sign of the dividend tells which way is rounded. -/
theorem towardZero_eq {a b q r : Int} (hidentity : a = q * b + r) (hsmall : |r| < |b|)
    (hsign : r = 0 ∨ r.sign = a.sign) : towardZero ((a : ℚ) / b) = q := by
  have hb : (b : ℚ) ≠ 0 := by
    intro hzero
    rw [Int.cast_eq_zero.1 hzero, abs_zero] at hsmall
    exact absurd hsmall (not_lt.2 (abs_nonneg r))
  have hquotient : (a : ℚ) / b = q + r / b := by
    rw [hidentity, Int.cast_add, Int.cast_mul, add_div, mul_div_cancel_right₀ _ hb]
  have hfraction : |(r : ℚ) / b| < 1 := by
    rw [abs_div, div_lt_one (abs_pos.2 hb)]
    exact_mod_cast hsmall
  obtain ⟨hlow, hhigh⟩ := abs_lt.1 hfraction
  obtain ⟨hup, hdown⟩ := fraction_cases (b := b) hsign
  unfold towardZero
  by_cases hside : 0 ≤ (a : ℚ) / b
  · have hrest : 0 ≤ (r : ℚ) / b := hup hside
    rw [if_pos hside, hquotient, Int.floor_eq_iff]
    constructor <;> linarith
  · have hrest : (r : ℚ) / b ≤ 0 := hdown (not_le.1 hside).le
    rw [if_neg hside, hquotient, Int.ceil_eq_iff]
    constructor <;> linarith

/-- Division that rounds toward zero is the truncated one. -/
theorem truncatedDivision_tdiv (a : Int) {b : Int} (hb : b ≠ 0) :
    TruncatedDivision a b (a.tdiv b) (a.tmod b) := by
  have hidentity : a = a.tdiv b * b + a.tmod b := (Int.tdiv_mul_add_tmod a b).symm
  have hsmall : |a.tmod b| < |b| := by
    rw [Int.abs_eq_natAbs, Int.abs_eq_natAbs, Int.natAbs_tmod]
    exact_mod_cast Nat.mod_lt _ (Int.natAbs_pos.2 hb)
  have hsign : a.tmod b = 0 ∨ (a.tmod b).sign = a.sign := by
    by_cases hdvd : b ∣ a
    · exact .inl (Int.tmod_eq_zero_of_dvd hdvd)
    · exact .inr (by rw [Int.sign_tmod, if_neg hdvd])
  exact ⟨hidentity, hsmall, hsign, (towardZero_eq hidentity hsmall hsign).symm⟩

/-- The only quotient of words that is no word is that of the smallest one by -1. -/
theorem tdiv_fits_iff {a b : Int} (ha : Fits a) :
    Fits (a.tdiv b) ↔ ¬ (a = -2 ^ 63 ∧ b = -1) := by
  unfold Fits at *
  constructor
  · rintro hfits ⟨rfl, rfl⟩
    exact absurd hfits (by decide)
  · intro hne
    rcases Int.lt_or_le 1 b.natAbs with hlarge | hunit
    · -- A divisor other than 1, 0 and -1 halves the quotient at least.
      have hhalf : (a.tdiv b).natAbs ≤ a.natAbs / 2 := by
        rw [Int.natAbs_tdiv]
        exact Nat.div_le_div_left (by omega) (by decide)
      omega
    · have hcases : b = 0 ∨ b = 1 ∨ b = -1 := by omega
      rcases hcases with rfl | rfl | rfl
      · rw [Int.tdiv_zero]
        decide
      · rwa [Int.tdiv_one]
      · rw [Int.tdiv_neg, Int.tdiv_one]
        omega

private theorem tmod_fits {a b : Int} (hb : Fits b) (hne : b ≠ 0) : Fits (a.tmod b) := by
  have hsmall : (a.tmod b).natAbs < b.natAbs := by
    rw [Int.natAbs_tmod]
    exact Nat.mod_lt _ (Int.natAbs_pos.2 hne)
  unfold Fits at *
  omega

/-! ## Division of words -/

section Division

variable {a b : Int64} {op : BinaryOp}

private theorem binary_division_zero (hop : op = .div ∨ op = .rem) (hb : b.toInt = 0) :
    binary op (.int a) (.int b) = .error .divisionByZero := by
  rcases hop with rfl | rfl
  · exact if_pos hb
  · exact if_pos hb

/-- Where there is no quotient there is no remainder. -/
theorem binary_division_overflow (hop : op = .div ∨ op = .rem) (ha : a.toInt = -2 ^ 63)
    (hb : b.toInt = -1) : binary op (.int a) (.int b) = .error .overflow := by
  have hne : b.toInt ≠ 0 := by omega
  have hfits : ¬ Fits (a.toInt.tdiv b.toInt) :=
    fun h => (tdiv_fits_iff (fits_toInt a)).1 h ⟨ha, hb⟩
  have hrefused : fitting (a.toInt.tdiv b.toInt) = .error .overflow :=
    (exact_fitting _).refused hfits
  rcases hop with rfl | rfl
  · show (if b.toInt = 0 then _ else fitting _) = _
    rw [if_neg hne, hrefused]
  · show (if b.toInt = 0 then _ else fitting _ >>= _) = _
    rw [if_neg hne, hrefused]
    rfl

/-- Integers are divided, unless the divisor is zero or the quotient needs more than 64 bits. -/
theorem exists_binary_division (hne : b.toInt ≠ 0)
    (hmin : ¬ (a.toInt = -2 ^ 63 ∧ b.toInt = -1)) :
    ∃ q r : Int64, binary .div (.int a) (.int b) = .ok (.int q) ∧
      binary .rem (.int a) (.int b) = .ok (.int r) ∧
      TruncatedDivision a.toInt b.toInt q.toInt r.toInt := by
  obtain ⟨q, hq, hdiv⟩ := (exact_fitting _).value ((tdiv_fits_iff (fits_toInt a)).2 hmin)
  obtain ⟨r, hr, hrem⟩ := (exact_fitting _).value (tmod_fits (a := a.toInt) (fits_toInt b) hne)
  refine ⟨q, r, ?_, ?_, ?_⟩
  · show (if b.toInt = 0 then _ else fitting _) = _
    rw [if_neg hne, hdiv]
  · show (if b.toInt = 0 then _ else fitting _ >>= fun _ => fitting _) = _
    rw [if_neg hne, hdiv, hrem]
    rfl
  · rw [hq, hr]
    exact truncatedDivision_tdiv a.toInt hne

/-- Which divisions are refused, and for which reason. -/
theorem binary_division_eq_error_iff (hop : op = .div ∨ op = .rem) :
    (binary op (.int a) (.int b) = .error .divisionByZero ↔ b.toInt = 0) ∧
    (binary op (.int a) (.int b) = .error .overflow ↔ a.toInt = -2 ^ 63 ∧ b.toInt = -1) := by
  by_cases hb : b.toInt = 0
  · rw [binary_division_zero hop hb]
    simp [hb]
  by_cases hmin : a.toInt = -2 ^ 63 ∧ b.toInt = -1
  · rw [binary_division_overflow hop hmin.1 hmin.2]
    simp [hmin]
  · obtain ⟨q, r, hdiv, hrem, -⟩ := exists_binary_division hb hmin
    have hok : ∃ w, binary op (.int a) (.int b) = .ok (.int w) := by
      rcases hop with rfl | rfl
      · exact ⟨q, hdiv⟩
      · exact ⟨r, hrem⟩
    obtain ⟨w, hw⟩ := hok
    rw [hw]
    exact ⟨⟨nofun, fun h => absurd h hb⟩, ⟨nofun, fun h => absurd h hmin⟩⟩

end Division

/-! ## Integer arithmetic -/

/-- Where two operands evaluate to integers one after the other, sum, difference, product and
negation are the mathematical ones if they have 64 bits, and overflows otherwise. Quotient and
remainder are refused for the divisor zero and, both, for the smallest integer and -1; otherwise
they divide the first integer by the second one, rounded toward zero. -/
theorem evaluate_intArithmetic {around : Surroundings} {x y : Expr} {a b : Int64}
    {f f₁ f₂ : Frame} (hx : (evaluate around x).run f = (.ok (.int a), f₁))
    (hy : (evaluate around y).run f₁ = (.ok (.int b), f₂)) :
    let value (e : Expr) := ((evaluate around e).run f).1
    Exact (value (.binary .add x y)) (a.toInt + b.toInt) ∧
    Exact (value (.binary .sub x y)) (a.toInt - b.toInt) ∧
    Exact (value (.binary .mul x y)) (a.toInt * b.toInt) ∧
    Exact (value (.unary .neg x)) (-a.toInt) ∧
    value (.unary .neg x) = value (.binary .sub (.literal (.int 0)) x) ∧
    (∀ op, op = .div ∨ op = .rem →
      (value (.binary op x y) = .error .divisionByZero ↔ b.toInt = 0) ∧
      (value (.binary op x y) = .error .overflow ↔ a.toInt = -2 ^ 63 ∧ b.toInt = -1)) ∧
    (b.toInt ≠ 0 → ¬ (a.toInt = -2 ^ 63 ∧ b.toInt = -1) → ∃ q r : Int64,
      value (.binary .div x y) = .ok (.int q) ∧ value (.binary .rem x y) = .ok (.int r) ∧
      TruncatedDivision a.toInt b.toInt q.toInt r.toInt) ∧
    EvalError.overflow.message = "integer overflow" ∧
    EvalError.divisionByZero.message = "division by zero" := by
  intro value
  have hbinary : ∀ op, op ≠ .and → op ≠ .or →
      value (.binary op x y) = binary op (.int a) (.int b) := fun op hand hor =>
    congrArg Prod.fst (run_evaluate_binary hand hor hx hy)
  have hneg : value (.unary .neg x) = unary .neg (.int a) :=
    congrArg Prod.fst (run_evaluate_unary .neg hx)
  have hsub : value (.binary .sub (.literal (.int 0)) x) = binary .sub (.int 0) (.int a) :=
    congrArg Prod.fst (run_evaluate_binary (by decide) (by decide)
      (run_evaluate_literal around (.int 0) f) hx)
  refine ⟨?_, ?_, ?_, ?_, ?_, ?_, ?_, rfl, rfl⟩
  · rw [hbinary .add (by decide) (by decide)]
    exact exact_fitting _
  · rw [hbinary .sub (by decide) (by decide)]
    exact exact_fitting _
  · rw [hbinary .mul (by decide) (by decide)]
    exact exact_fitting _
  · rw [hneg]
    exact exact_fitting _
  · rw [hneg, hsub, unary_neg_eq_binary_sub]
  · intro op hop
    have hop' : op ≠ .and ∧ op ≠ .or := by
      rcases hop with rfl | rfl <;> decide
    rw [hbinary op hop'.1 hop'.2]
    exact binary_division_eq_error_iff hop
  · intro hne hmin
    rw [hbinary .div (by decide) (by decide), hbinary .rem (by decide) (by decide)]
    exact exists_binary_division hne hmin

/-- In `-7 / 2` and `-7 % 2` the quotient is rounded up. -/
theorem evaluate_intArithmetic_negative :
    let around : Surroundings := ⟨.empty, 0⟩
    let f : Frame := ⟨[], ⟨none, none⟩⟩
    let x : Expr := .unary .neg (.literal (.int 7))
    let y : Expr := .literal (.int 2)
    (evaluate around x).run f = (.ok (.int (-7)), f) ∧
    (evaluate around y).run f = (.ok (.int 2), f) ∧
    ∃ q r : Int64, ((evaluate around (.binary .div x y)).run f).1 = .ok (.int q) ∧
      ((evaluate around (.binary .rem x y)).run f).1 = .ok (.int r) ∧
      TruncatedDivision (-7) 2 q.toInt r.toInt := by
  intro around f x y
  have hx : (evaluate around x).run f = (.ok (.int (-7)), f) :=
    run_evaluate_unary .neg (run_evaluate_literal around (.int 7) f)
  have hy : (evaluate around y).run f = (.ok (.int 2), f) := run_evaluate_literal around (.int 2) f
  obtain ⟨-, -, -, -, -, -, hdivision, -, -⟩ := evaluate_intArithmetic hx hy
  exact ⟨hx, hy, hdivision (by decide) (by decide)⟩

end InfraGraph.Block
