import InfraGraph.Reading.Reader

/-!
# What readers read, step by step

The equations by which the result of a reader is found, failures aside: single lexemes, repetitions,
lists with separators, and whole texts.

## Main results

* `result_many_succ`, `result_moreItems_succ`, `result_items` — what a repetition reads.
* `readAll_eq_ok_iff` — a whole text is read if nothing is left over.
-/

namespace InfraGraph.Reading.Reader

variable {τ α β ι : Type}

/-! ## What is read -/

@[simp] theorem result_hOrElse (p q : Reader τ α) (xs : List (Lexeme τ)) :
    result (p <|> q) xs = (result p xs).or (result q xs) :=
  result_orElse p (fun _ => q) xs

@[simp] theorem result_lexeme_cons (what : List String) (judge : Lexeme τ → Verdict α)
    (x : Lexeme τ) (rest : List (Lexeme τ)) :
    result (lexeme what judge) (x :: rest) =
      match judge x with
      | .take a => some (a, rest)
      | _ => none := by
  simp only [result, lexeme]
  cases judge x with
  | take a => rfl
  | pass => rfl
  | refuse cause => rfl

/-- A repetition reads an item and then the others, or nothing. -/
theorem result_many_succ (p : Reader τ α) (n : Nat) (xs : List (Lexeme τ)) :
    result (many p (n + 1)) xs =
      match result p xs with
      | none => some ([], xs)
      | some (a, rest) => (result (many p n) rest).map fun r => (a :: r.1, r.2) := by
  rw [many, result_bind, result_optional]
  cases result p xs with
  | none => rfl
  | some r =>
      change result (many p n >>= fun as => pure (r.1 :: as)) r.2 = _
      rw [result_bind]
      dsimp only
      cases result (many p n) r.2 with
      | none => rfl
      | some s => rfl

/-- A repetition ends where no item can be read. -/
theorem result_many_of_none {p : Reader τ α} {xs : List (Lexeme τ)}
    (hstop : result p xs = none) (n : Nat) : result (many p n) xs = some ([], xs) := by
  cases n with
  | zero => rfl
  | succ n => rw [result_many_succ, hstop]

/-- Further items are read behind a separator each; the last separator may end the list. -/
theorem result_moreItems_succ (item : Reader τ α) (separator : Reader τ β) (n : Nat)
    (xs : List (Lexeme τ)) :
    result (moreItems item separator (n + 1)) xs =
      match result separator xs with
      | none => some ([], xs)
      | some (_, rest) =>
        match result item rest with
        | none => some ([], rest)
        | some (a, more) =>
          (result (moreItems item separator n) more).map fun r => (a :: r.1, r.2) := by
  rw [moreItems, result_bind, result_optional]
  cases result separator xs with
  | none => rfl
  | some r =>
      change result (optional item >>= _) r.2 = _
      rw [result_bind, result_optional]
      dsimp only
      cases result item r.2 with
      | none => rfl
      | some s =>
          change result (moreItems item separator n >>= fun as => pure (s.1 :: as)) s.2 = _
          rw [result_bind]
          dsimp only
          cases result (moreItems item separator n) s.2 with
          | none => rfl
          | some t => rfl

/-- A list ends where no separator stands. -/
theorem result_moreItems_of_none {item : Reader τ α} {separator : Reader τ β} {xs : List (Lexeme τ)}
    (hstop : result separator xs = none) (n : Nat) :
    result (moreItems item separator n) xs = some ([], xs) := by
  cases n with
  | zero => rfl
  | succ n => rw [result_moreItems_succ, hstop]

/-- A list is empty or begins with an item. -/
theorem result_items (item : Reader τ α) (separator : Reader τ β) (n : Nat)
    (xs : List (Lexeme τ)) :
    result (items item separator n) xs =
      match result item xs with
      | none => some ([], xs)
      | some (a, more) =>
        (result (moreItems item separator n) more).map fun r => (a :: r.1, r.2) := by
  rw [items, result_bind, result_optional]
  cases result item xs with
  | none => rfl
  | some r =>
      change result (moreItems item separator n >>= fun as => pure (r.1 :: as)) r.2 = _
      rw [result_bind]
      dsimp only
      cases result (moreItems item separator n) r.2 with
      | none => rfl
      | some s => rfl

/-- What follows an item is a list again, behind a separator. -/
theorem result_moreItems_eq_items (item : Reader τ α) (separator : Reader τ β) (n : Nat)
    (xs : List (Lexeme τ)) :
    result (moreItems item separator (n + 1)) xs =
      match result separator xs with
      | none => some ([], xs)
      | some (_, rest) => result (items item separator n) rest := by
  rw [result_moreItems_succ]
  cases result separator xs with
  | none => rfl
  | some r => exact (result_items item separator n r.2).symm

/-! ## Folding to the left

What stands behind a first part is often read as often as possible and applied to it from the left:
operators of one level with their operands, or what is accessed of an operand. -/

/-- Reads as often as possible and applies what is read to a start value, from the left. -/
def foldMany (step : Reader τ β) (apply : α → β → α) (n : Nat) (a : α) : Reader τ α := do
  let more ← many step n
  return more.foldl apply a

/-- Folding steps as they are read is folding them afterwards. -/
theorem result_foldMany (step : Reader τ β) (apply : α → β → α) (n : Nat) (a : α)
    (xs : List (Lexeme τ)) :
    result (foldMany step apply n a) xs =
      (result (many step n) xs).map fun r => (r.1.foldl apply a, r.2) := by
  rw [foldMany, result_bind]
  cases result (many step n) xs with
  | none => rfl
  | some r => rfl

theorem result_foldMany_of_some {step : Reader τ β} {xs ys : List (Lexeme τ)} {b : β}
    (hstep : result step xs = some (b, ys)) (apply : α → β → α) (n : Nat) (a : α) :
    result (foldMany step apply (n + 1) a) xs = result (foldMany step apply n (apply a b)) ys := by
  rw [result_foldMany, result_foldMany, result_many_succ, hstep]
  dsimp only
  cases result (many step n) ys with
  | none => rfl
  | some r => rfl

theorem result_foldMany_of_none {step : Reader τ β} {xs : List (Lexeme τ)}
    (hstep : result step xs = none) (apply : α → β → α) (n : Nat) (a : α) :
    result (foldMany step apply n a) xs = some (a, xs) := by
  rw [result_foldMany, result_many_of_none hstep]
  rfl

/-! ## Whole texts -/

/-- A whole text is read if the reader leaves nothing over. -/
theorem readAll_eq_ok_iff {p : Reader τ α} {describe : τ → String} {text : List Char}
    {xs : List (Lexeme τ)} {a : α} :
    readAll p describe text xs = .ok a ↔ result p xs = some (a, []) := by
  have hall : ((do let a ← p; ended; pure a : Reader τ α) xs).result =
      (result p xs).bind fun r => if r.2.isEmpty then some r else none := by
    change result (p >>= fun a => ended >>= fun _ => pure a) xs = _
    rw [result_bind]
    rcases result p xs with _ | ⟨a, _ | ⟨x, rest⟩⟩ <;> rfl
  unfold readAll
  simp only [hall]
  rcases result p xs with _ | ⟨b, _ | ⟨x, rest⟩⟩
  · simp
  · simp
  · simp

end InfraGraph.Reading.Reader
