import Mathlib.Data.List.TakeWhile

/-!
# Patterns

A pattern is a sequence of parts: a single character of a class, or a run of characters of a class,
which is not empty and is captured. It matches a text from its start to its end. A run takes as many
characters as it can and gives them back one by one while the rest of the pattern does not match, so
of all ways to match a text the one is found in which the first run is longest, then the second one,
and so on.

## Main results

* `matches_of_captures` — what is captured is a way to match the text.
* `exists_captures` — a text that can be matched is matched.
* `not_lex_of_captures` — no other way to match it has longer runs.
-/

namespace InfraGraph.Text

/-- A part of a pattern. -/
inductive Part where
  /-- One character of a class. -/
  | one (accepts : Char → Bool)
  /-- As many characters of a class as possible, at least one. They are captured. -/
  | run (accepts : Char → Bool)

/-- A pattern for whole texts. -/
abbrev Pattern := List Part

namespace Pattern

/-- The first `n` characters of a text or, while what is behind them does not do, fewer of them. -/
def backtrack {α : Type} (next : List Char → Option α) (cs : List Char) :
    Nat → Option (List Char × α)
  | 0 => none
  | n + 1 =>
    match next (cs.drop (n + 1)) with
    | some a => some (cs.take (n + 1), a)
    | none => backtrack next cs n

/-- What the runs of a pattern capture of a text. -/
def captures : Pattern → List Char → Option (List (List Char))
  | [], [] => some []
  | [], _ :: _ => none
  | .one _ :: _, [] => none
  | .one accepts :: rest, c :: cs => if accepts c then captures rest cs else none
  | .run accepts :: rest, cs =>
    (backtrack (captures rest) cs (cs.takeWhile accepts).length).map fun (taken, more) =>
      taken :: more

/-- A way to match a text. -/
inductive Matches : Pattern → List Char → List (List Char) → Prop where
  | nil : Matches [] [] []
  | one {accepts : Char → Bool} {c : Char} {rest : Pattern} {cs : List Char}
      {more : List (List Char)} (hc : accepts c = true) (hrest : Matches rest cs more) :
      Matches (.one accepts :: rest) (c :: cs) more
  | run {accepts : Char → Bool} {taken : List Char} {rest : Pattern} {cs : List Char}
      {more : List (List Char)} (hne : taken ≠ []) (htaken : ∀ c ∈ taken, accepts c = true)
      (hrest : Matches rest cs more) :
      Matches (.run accepts :: rest) (taken ++ cs) (taken :: more)

/-! ## Giving back -/

section Backtrack

variable {α : Type} {next : List Char → Option α} {cs : List Char} {n : Nat}

/-- Characters are given back only where the rest cannot go on. -/
theorem backtrack_eq_some {taken : List Char} {a : α}
    (h : backtrack next cs n = some (taken, a)) :
    ∃ k, 0 < k ∧ k ≤ n ∧ taken = cs.take k ∧ next (cs.drop k) = some a ∧
      ∀ m, k < m → m ≤ n → next (cs.drop m) = none := by
  induction n with
  | zero => cases h
  | succ n ih =>
      unfold backtrack at h
      split at h
      · rename_i b hnext
        cases h
        exact ⟨n + 1, by omega, le_rfl, rfl, hnext, fun m hlow hhigh => by omega⟩
      · rename_i hnext
        obtain ⟨k, hpos, hk, htaken, hsome, hlonger⟩ := ih h
        refine ⟨k, hpos, by omega, htaken, hsome, fun m hlow hhigh => ?_⟩
        by_cases hm : m = n + 1
        · rw [hm]
          exact hnext
        · exact hlonger m hlow (by omega)

private theorem backtrack_eq_none (h : backtrack next cs n = none) {k : Nat} (hpos : 0 < k)
    (hk : k ≤ n) : next (cs.drop k) = none := by
  induction n with
  | zero => omega
  | succ n ih =>
      unfold backtrack at h
      split at h
      · cases h
      · rename_i hnext
        by_cases hlast : k = n + 1
        · rw [hlast]
          exact hnext
        · exact ih h (by omega)

end Backtrack

/-! ## Matching -/

variable {p : Pattern} {cs : List Char} {pieces other : List (List Char)}

theorem matches_nil_iff : Matches [] cs pieces ↔ cs = [] ∧ pieces = [] := by
  constructor
  · rintro ⟨⟩
    exact ⟨rfl, rfl⟩
  · rintro ⟨rfl, rfl⟩
    exact .nil

theorem matches_one_iff {accepts : Char → Bool} {rest : Pattern} :
    Matches (.one accepts :: rest) cs pieces ↔
      ∃ c tail, cs = c :: tail ∧ accepts c = true ∧ Matches rest tail pieces := by
  constructor
  · rintro (- | ⟨hc, hrest⟩)
    exact ⟨_, _, rfl, hc, hrest⟩
  · rintro ⟨c, tail, rfl, hc, hrest⟩
    exact .one hc hrest

/-- A run matches some characters that it accepts, and the rest goes on behind them. -/
theorem matches_run_iff {accepts : Char → Bool} {rest : Pattern} :
    Matches (.run accepts :: rest) cs pieces ↔
      ∃ taken tail more, cs = taken ++ tail ∧ pieces = taken :: more ∧ taken ≠ [] ∧
        (∀ c ∈ taken, accepts c = true) ∧ Matches rest tail more := by
  constructor
  · rintro (- | - | ⟨hne, htaken, hrest⟩)
    exact ⟨_, _, _, rfl, rfl, hne, htaken, hrest⟩
  · rintro ⟨taken, tail, more, rfl, rfl, hne, htaken, hrest⟩
    exact .run hne htaken hrest

/-- A run captures as many characters as the rest allows. -/
theorem captures_run_eq_some {accepts : Char → Bool} {rest : Pattern}
    (h : captures (.run accepts :: rest) cs = some pieces) :
    ∃ k more, 0 < k ∧ k ≤ (cs.takeWhile accepts).length ∧ pieces = cs.take k :: more ∧
      captures rest (cs.drop k) = some more ∧
      ∀ m, k < m → m ≤ (cs.takeWhile accepts).length → captures rest (cs.drop m) = none := by
  rw [captures] at h
  obtain ⟨⟨taken, more⟩, hback, rfl⟩ := Option.map_eq_some_iff.1 h
  obtain ⟨k, hpos, hk, rfl, hmore, hlonger⟩ := backtrack_eq_some hback
  exact ⟨k, more, hpos, hk, rfl, hmore, hlonger⟩

/-- What a run takes is there to be taken. -/
theorem length_take_run {accepts : Char → Bool} {k : Nat}
    (hk : k ≤ (cs.takeWhile accepts).length) : (cs.take k).length = k :=
  List.length_take_of_le (hk.trans (List.takeWhile_prefix accepts).length_le)

private theorem forall_mem_take_run {accepts : Char → Bool} {k : Nat}
    (hk : k ≤ (cs.takeWhile accepts).length) : ∀ c ∈ cs.take k, accepts c = true := by
  have hinitial : cs.take k <+: cs.takeWhile accepts := by
    apply List.prefix_of_prefix_length_le (List.take_prefix k cs) (List.takeWhile_prefix accepts)
    rw [length_take_run hk]
    exact hk
  exact fun c hc => List.mem_takeWhile_imp (hinitial.subset hc)

/-- What is captured is a way to match the text. -/
theorem matches_of_captures (h : captures p cs = some pieces) : Matches p cs pieces := by
  induction p generalizing cs pieces with
  | nil =>
      cases cs with
      | nil => cases h; exact .nil
      | cons c cs => cases h
  | cons part rest ih =>
      cases part with
      | one accepts =>
          cases cs with
          | nil => cases h
          | cons c cs =>
              rw [captures] at h
              split at h
              · rename_i hc
                exact .one hc (ih h)
              · cases h
      | run accepts =>
          obtain ⟨k, more, hpos, hk, rfl, hmore, -⟩ := captures_run_eq_some h
          have hne : cs.take k ≠ [] := by
            apply List.ne_nil_of_length_pos
            rw [length_take_run hk]
            exact hpos
          have hmatches := Matches.run hne (forall_mem_take_run hk) (ih hmore)
          rwa [List.take_append_drop] at hmatches

/-- A run can take at least the characters that a way to match the text takes. -/
theorem length_le_takeWhile {accepts : Char → Bool} {taken : List Char}
    (htaken : ∀ c ∈ taken, accepts c = true) (cs : List Char) :
    taken.length ≤ ((taken ++ cs).takeWhile accepts).length := by
  rw [List.takeWhile_append_of_pos htaken, List.length_append]
  exact Nat.le_add_right _ _

/-- A text that can be matched is matched. -/
theorem exists_captures (h : Matches p cs other) : ∃ pieces, captures p cs = some pieces := by
  induction h with
  | nil => exact ⟨[], rfl⟩
  | one hc _ ih =>
      rw [captures, if_pos hc]
      exact ih
  | @run accepts taken rest cs more hne htaken _ ih =>
      obtain ⟨pieces, hpieces⟩ := ih
      cases hcaptures : captures (.run accepts :: rest) (taken ++ cs) with
      | some all => exact ⟨all, rfl⟩
      | none =>
          rw [captures, Option.map_eq_none_iff] at hcaptures
          have hnone := backtrack_eq_none hcaptures (List.length_pos_iff.2 hne)
            (length_le_takeWhile htaken cs)
          rw [List.drop_left, hpieces] at hnone
          cases hnone

/-- No other way to match the text has longer runs, of which the first that differ count. -/
theorem not_lex_of_captures (h : captures p cs = some pieces) (hother : Matches p cs other) :
    ¬ List.Lex (· < ·) (pieces.map List.length) (other.map List.length) := by
  induction hother generalizing pieces with
  | nil => exact List.not_lex_nil
  | one hc _ ih =>
      rw [captures, if_pos hc] at h
      exact ih h
  | @run accepts taken rest cs more hne htaken hrest ih =>
      obtain ⟨k, found, -, hk, rfl, hfound, hlonger⟩ := captures_run_eq_some h
      rw [List.map_cons, List.map_cons, length_take_run hk, List.cons_lex_cons_iff]
      rintro (hmore | ⟨hsame, hlex⟩)
      · -- The rest goes on behind the longer run, so that the run would not have been given back.
        have hnone := hlonger taken.length hmore (length_le_takeWhile htaken cs)
        obtain ⟨all, hall⟩ := exists_captures hrest
        rw [List.drop_left, hall] at hnone
        cases hnone
      · rw [hsame, List.drop_left] at hfound
        exact ih hfound hlex

end Pattern

end InfraGraph.Text
