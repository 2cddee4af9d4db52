import InfraGraph.Proofs.Block.Arithmetic

/-!
# Indexing counts from both ends

A list or a string of length `n` has its elements at the indices from 0 to `n - 1` and, counted from
the end, from `-n` to -1; every other index is refused. The place of an element is computed in the
integers. Words of 64 bits give the same place: only a negative index is added to the length, and
the sum of a negative word and one that is not negative has 64 bits.

## Main results

* `place_eq_ok_iff` — which place an index means.
* `wordPlace_eq` — words, which might wrap around, give the same place.
* `subscript_meaning` — what lists and strings hold at an index.
-/

namespace InfraGraph.Block

/-! ## Places -/

/-- An index means the place `k` among `n`, counted from the front or from the end. -/
def Counts (i : Int64) (n k : Nat) : Prop := k < n ∧ (i.toInt = k ∨ n + i.toInt = k)

section Place

variable {i : Int64} {n k : Nat}

/-- A place is found just if the index counts to it. -/
theorem place_eq_ok_iff : place i n = .ok k ↔ Counts i n k := by
  unfold place Counts
  dsimp only
  generalize hresolved : (if i.toInt < 0 then i.toInt + n else i.toInt) = resolved
  by_cases hinside : 0 ≤ resolved ∧ resolved < n
  · rw [if_pos hinside, Except.ok.injEq]
    omega
  · rw [if_neg hinside]
    refine ⟨nofun, fun h => absurd ?_ hinside⟩
    omega

/-- The indices between `-n` and `n` are those that mean a place. -/
theorem exists_counts_iff : (∃ k, Counts i n k) ↔ -n ≤ i.toInt ∧ i.toInt < n := by
  unfold Counts
  constructor
  · rintro ⟨k, hk, hindex | hindex⟩
    · omega
    · omega
  · intro h
    by_cases hneg : i.toInt < 0
    · exact ⟨(n + i.toInt).toNat, by omega, .inr (by omega)⟩
    · exact ⟨i.toInt.toNat, by omega, .inl (by omega)⟩

private theorem place_eq_error (h : ¬ (-n ≤ i.toInt ∧ i.toInt < n)) :
    place i n = .error (.indexOutOfRange i n) := by
  unfold place
  dsimp only
  rw [if_neg]
  split <;> omega

/-- The place that an index means, computed with words only: the sum and the comparisons are those
of words of 64 bits. -/
def wordPlace (i : Int64) (n : Nat) : Except EvalError Nat :=
  let length := Int64.ofNat n
  let resolved := if i < 0 then length + i else i
  if resolved < 0 ∨ length ≤ resolved then .error (.indexOutOfRange i n)
  else .ok resolved.toInt.toNat

/-- A length and a negative index have a sum of 64 bits, so that adding them as words is exact. -/
theorem toInt_ofNat_add (hn : n < 2 ^ 63) (hi : i.toInt < 0) :
    Fits (n + i.toInt) ∧ (Int64.ofNat n + i).toInt = n + i.toInt := by
  have hlow : -2 ^ 63 ≤ i.toInt := (fits_toInt i).1
  have hfits : Fits (n + i.toInt) := by
    unfold Fits
    omega
  refine ⟨hfits, ?_⟩
  rw [Int64.toInt_add, Int64.toInt_ofNat_of_lt hn]
  exact Int.bmod_eq_of_le (by have := hfits.1; omega) (by have := hfits.2; omega)

/-- Places are counted in words as they are in numbers. -/
theorem wordPlace_eq (hn : n < 2 ^ 63) : wordPlace i n = place i n := by
  have hlength : (Int64.ofNat n).toInt = n := Int64.toInt_ofNat_of_lt hn
  have hresolved : (if i < 0 then Int64.ofNat n + i else i).toInt =
      if i.toInt < 0 then i.toInt + n else i.toInt := by
    by_cases hneg : i.toInt < 0
    · rw [if_pos hneg, if_pos (Int64.lt_iff_toInt_lt.2 hneg), (toInt_ofNat_add hn hneg).2,
        Int.add_comm]
    · rw [if_neg hneg, if_neg fun h => hneg (Int64.lt_iff_toInt_lt.1 h)]
  unfold wordPlace place
  dsimp only
  rw [← hresolved]
  generalize (if i < 0 then Int64.ofNat n + i else i) = resolved
  have houtside : (resolved < 0 ∨ Int64.ofNat n ≤ resolved) ↔
      ¬ (0 ≤ resolved.toInt ∧ resolved.toInt < n) := by
    rw [Int64.lt_iff_toInt_lt, Int64.le_iff_toInt_le, hlength, Int64.toInt_zero]
    omega
  by_cases hinside : 0 ≤ resolved.toInt ∧ resolved.toInt < n
  · rw [if_pos hinside, if_neg fun h => houtside.1 h hinside]
  · rw [if_neg hinside, if_pos (houtside.2 hinside)]

end Place

/-! ## Elements -/

/-- The values that can be indexed with integers, and their elements: the items of a list and the
characters of a string. -/
inductive Sequence : Value → List Value → Prop where
  | list (items : List Value) : Sequence (.list items) items
  | string (s : String) : Sequence (.string s) (s.toList.map fun c => .string (String.ofList [c]))

section Subscript

variable {container v : Value} {elements : List Value} {i : Int64}

/-- The element is taken at the place that the index means. -/
theorem subscript_eq_bind (h : Sequence container elements) (i : Int64) :
    subscript container (.int i) = (place i elements.length).bind fun k =>
      .ok (elements.getD k .null) := by
  cases h with
  | list items => rfl
  | string s =>
      rw [List.length_map]
      show ((place i s.toList.length).bind fun k => _) = _
      cases hplace : place i s.toList.length with
      | error e => rfl
      | ok k =>
          have hk : k < s.toList.length := (place_eq_ok_iff.1 hplace).1
          show Except.ok _ = Except.ok _
          simp [List.getD, hk]

/-- A subscript gives the element to which the index counts. -/
theorem subscript_eq_ok_iff (h : Sequence container elements) :
    subscript container (.int i) = .ok v ↔
      ∃ k, Counts i elements.length k ∧ elements[k]? = some v := by
  rw [subscript_eq_bind h]
  constructor
  · intro hok
    cases hplace : place i elements.length with
    | error e => rw [hplace] at hok; cases hok
    | ok k =>
        rw [hplace] at hok
        cases hok
        have hcounts := place_eq_ok_iff.1 hplace
        exact ⟨k, hcounts, by simp [List.getD, hcounts.1]⟩
  · rintro ⟨k, hcounts, hv⟩
    rw [place_eq_ok_iff.2 hcounts]
    show Except.ok _ = _
    rw [List.getD, hv]
    rfl

private theorem subscript_eq_error (h : Sequence container elements)
    (hout : ¬ (-elements.length ≤ i.toInt ∧ i.toInt < elements.length)) :
    subscript container (.int i) = .error (.indexOutOfRange i elements.length) := by
  rw [subscript_eq_bind h, place_eq_error hout]
  rfl

private theorem exists_subscript_iff (h : Sequence container elements) :
    (∃ v, subscript container (.int i) = .ok v) ↔
      -elements.length ≤ i.toInt ∧ i.toInt < elements.length := by
  rw [← exists_counts_iff]
  constructor
  · rintro ⟨v, hv⟩
    obtain ⟨k, hk, -⟩ := (subscript_eq_ok_iff h).1 hv
    exact ⟨k, hk⟩
  · rintro ⟨k, hk⟩
    obtain ⟨v, hv⟩ : ∃ v, elements[k]? = some v := ⟨_, List.getElem?_eq_getElem hk.1⟩
    exact ⟨v, (subscript_eq_ok_iff h).2 ⟨k, hk, hv⟩⟩

end Subscript

private theorem join_characters (s : String) :
    String.join (s.toList.map fun c => String.ofList [c]) = s := by
  rw [← String.toList_inj, String.toList_join, List.flatMap_map]
  simp

/-- Among the `n` elements of a list or a string, the index `i` means element `i`, or element
`n + i` if it is negative; any other index is refused with itself and the length. Where the length
is a word, the sum does not overflow, and words give the same place. Hence an index means the same
if it is counted from the end, and the characters of a string make up the string. -/
theorem subscript_meaning {container : Value} {elements : List Value}
    (h : Sequence container elements) :
    let n := elements.length
    (∀ i : Int64,
      ((∃ v, subscript container (.int i) = .ok v) ↔ -n ≤ i.toInt ∧ i.toInt < n) ∧
      (∀ (k : Nat) v, elements[k]? = some v → i.toInt = k →
        subscript container (.int i) = .ok v) ∧
      (∀ (k : Nat) v, elements[k]? = some v → i.toInt < 0 → n + i.toInt = k →
        subscript container (.int i) = .ok v) ∧
      (¬ (-n ≤ i.toInt ∧ i.toInt < n) →
        subscript container (.int i) = .error (.indexOutOfRange i n)) ∧
      (n < 2 ^ 63 → (i.toInt < 0 → Fits (n + i.toInt)) ∧ wordPlace i n = place i n) ∧
      ∀ k, place i n = .ok k → k < n) ∧
    (∀ i j : Int64, 0 ≤ i.toInt → i.toInt < n → j.toInt = i.toInt - n →
      subscript container (.int i) = subscript container (.int j)) ∧
    ∀ s, container = .string s → ∃ characters : List String, characters.length = n ∧
      (∀ (i : Int64) (k : Nat) t, characters[k]? = some t → i.toInt = k →
        subscript container (.int i) = .ok (.string t)) ∧
      String.join characters = s := by
  intro n
  have helement : ∀ (i : Int64) (k : Nat) v, elements[k]? = some v →
      i.toInt = k ∨ n + i.toInt = k → subscript container (.int i) = .ok v := by
    intro i k v hv hindex
    exact (subscript_eq_ok_iff h).2 ⟨k, ⟨(List.getElem?_eq_some_iff.1 hv).1, hindex⟩, hv⟩
  refine ⟨fun i => ⟨exists_subscript_iff h, fun k v hv hk => helement i k v hv (.inl hk),
    fun k v hv _ hk => helement i k v hv (.inr hk), subscript_eq_error h,
    fun hn => ⟨fun hneg => (toInt_ofNat_add hn hneg).1, wordPlace_eq hn⟩,
    fun k hk => (place_eq_ok_iff.1 hk).1⟩, ?_, ?_⟩
  · intro i j hlow hhigh hj
    obtain ⟨v, hv⟩ := (exists_subscript_iff h).2 ⟨by omega, hhigh⟩
    obtain ⟨k, ⟨hk, hindex⟩, hget⟩ := (subscript_eq_ok_iff h).1 hv
    rw [hv, helement j k v hget (.inr (by omega))]
  · rintro s rfl
    cases h
    refine ⟨s.toList.map fun c => String.ofList [c], by simp [n], ?_, join_characters s⟩
    intro i k t ht hk
    refine helement i k (.string t) ?_ (.inl hk)
    rw [List.getElem?_map] at ht ⊢
    obtain ⟨c, hc, rfl⟩ := Option.map_eq_some_iff.1 ht
    rw [hc]
    rfl

/-- The second last character of a string takes two bytes, and the smallest index is refused. -/
theorem subscript_meaning_accented :
    Sequence (.string "né€") (['n', 'é', '€'].map fun c => .string (String.ofList [c])) ∧
    subscript (.string "né€") (.int (-2)) = .ok (.string "é") ∧
    subscript (.string "né€") (.int Int64.minValue) =
      .error (.indexOutOfRange Int64.minValue 3) := by
  have h : Sequence (.string "né€")
      (['n', 'é', '€'].map fun c => .string (String.ofList [c])) := .string "né€"
  obtain ⟨hindex, -, -⟩ := subscript_meaning h
  obtain ⟨-, -, hnegative, -, -, -⟩ := hindex (-2)
  obtain ⟨-, -, -, hrefused, -, -⟩ := hindex Int64.minValue
  exact ⟨h, hnegative 1 _ rfl (by decide) (by decide), hrefused (by decide)⟩

end InfraGraph.Block
