import InfraGraph.Block.Methods
import InfraGraph.Proofs.Block.Arithmetic
import InfraGraph.Proofs.Value.WellFormed
import Mathlib.Data.List.Forall2
import Mathlib.Data.List.Perm.Subperm

/-!
# Equality by parts

Lists are equal item by item and maps key by key, at every depth. Numbers of different types are the
exception: an integer equals a floating-point number of its value where the two are compared
themselves, but never where they stand at the same place in two lists or maps. So equality is
structural up to this: two values that would be equal with numbers compared as numbers at every
depth are equal unless an integer meets a floating-point number inside of them.

## Main results

* `equal_list_iff`, `equal_map_iff` — equality of lists and maps by that of their parts.
* `equal_iff_alike` — equality beside the one that compares numbers as numbers at every depth.
* `evaluate_equality` — what `==`, `!=` and `contains` give.
-/

namespace InfraGraph.Block

open Entries (get? keys)

/-! ## Parts -/

/-- One of two values is an integer and the other one a floating-point number. -/
def Crossed : Value → Value → Prop
  | .int _, .float _ | .float _, .int _ => True
  | _, _ => False

/-- Parts are compared like values by themselves, but numbers must be of one type. -/
theorem same_iff (u v : Value) : Value.same u v = true ↔ equal u v = true ∧ ¬ Crossed u v := by
  cases u <;> cases v <;> simp [Value.same, equal, Crossed]

/-- Lists are equal if they are equally long and so are their items, with no integer beside a float.
-/
theorem equal_list_iff {xs ys : List Value} :
    equal (.list xs) (.list ys) = true ↔ xs.length = ys.length ∧
      ∀ (i : Nat) a b, xs[i]? = some a → ys[i]? = some b → equal a b = true ∧ ¬ Crossed a b := by
  show Value.sameItems xs ys = true ↔ _
  induction xs generalizing ys with
  | nil => cases ys <;> simp [Value.sameItems]
  | cons x xs ih =>
      cases ys with
      | nil => simp [Value.sameItems]
      | cons y ys =>
          rw [Value.sameItems, Bool.and_eq_true, same_iff, ih, List.length_cons, List.length_cons,
            Nat.add_right_cancel_iff]
          constructor
          · rintro ⟨hfirst, hlength, hmore⟩
            refine ⟨hlength, fun i a b ha hb => ?_⟩
            cases i with
            | zero =>
                obtain rfl := Option.some.inj ha
                obtain rfl := Option.some.inj hb
                exact hfirst
            | succ i => exact hmore i a b ha hb
          · rintro ⟨hlength, hitems⟩
            exact ⟨hitems 0 x y rfl rfl, hlength, fun i => hitems (i + 1)⟩

private theorem sameEntries_iff {m k : Entries Value} :
    Value.sameEntries m k = true ↔
      ∀ e ∈ m, ∃ w, get? k e.1 = some w ∧ equal e.2 w = true ∧ ¬ Crossed e.2 w := by
  induction m with
  | nil => simp [Value.sameEntries]
  | cons e rest ih =>
      rw [Value.sameEntries, Bool.and_eq_true, ih, List.forall_mem_cons]
      refine and_congr_left fun _ => ?_
      cases get? k e.1 with
      | none => simp
      | some w => simp [same_iff]

/-- As many keys in both maps, and those of one in the other, are the same keys. -/
theorem equal_map_iff {m k : Entries Value} (hm : (keys m).Nodup) (hk : (keys k).Nodup) :
    equal (.map m) (.map k) = true ↔ (∀ key, key ∈ keys m ↔ key ∈ keys k) ∧
      ∀ key a b, get? m key = some a → get? k key = some b →
        equal a b = true ∧ ¬ Crossed a b := by
  show (m.length == k.length && Value.sameEntries m k) = true ↔ _
  rw [Bool.and_eq_true, beq_iff_eq, sameEntries_iff]
  constructor
  · rintro ⟨hlength, hentries⟩
    have hsubset : keys m ⊆ keys k := by
      intro key hkey
      obtain ⟨e, he, rfl⟩ := List.mem_map.1 hkey
      obtain ⟨w, hw, -⟩ := hentries e he
      exact (Entries.get?_isSome_iff k e.1).1 (by rw [hw]; rfl)
    have hperm : (keys m).Perm (keys k) :=
      (List.subperm_of_subset hm hsubset).perm_of_length_le (by simp [keys, hlength])
    refine ⟨fun key => hperm.mem_iff, fun key a b ha hb => ?_⟩
    obtain ⟨w, hw, hequal⟩ := hentries (key, a) (Entries.mem_of_get? ha)
    obtain rfl := Option.some.inj (hb.symm.trans hw)
    exact hequal
  · rintro ⟨hkeys, hvalues⟩
    have hperm : (keys m).Perm (keys k) := (List.perm_ext_iff_of_nodup hm hk).2 hkeys
    refine ⟨by simpa [keys] using hperm.length_eq, fun e he => ?_⟩
    obtain ⟨w, hw⟩ := Option.isSome_iff_exists.1
      ((Entries.get?_isSome_iff k e.1).2 ((hkeys e.1).1 (Entries.mem_keys he)))
    exact ⟨w, hw, hvalues e.1 e.2 w (Entries.get?_of_mem hm he) hw⟩

/-! ## Equality through and through -/

/-- The values `a` and `b` stand at the same place in two lists or two maps. -/
inductive Facing : Value → Value → Value → Value → Prop
  | items {xs ys : List Value} {i : Nat} {a b : Value} (ha : xs[i]? = some a)
      (hb : ys[i]? = some b) : Facing (.list xs) (.list ys) a b
  | entries {m k : Entries Value} {key : String} {a b : Value} (ha : get? m key = some a)
      (hb : get? k key = some b) : Facing (.map m) (.map k) a b

/-- The values `a` and `b` stand at the same place inside of two values, at some depth. -/
inductive FacingInside : Value → Value → Value → Value → Prop
  | part {u v a b : Value} (h : Facing u v a b) : FacingInside u v a b
  | deeper {u v a b c d : Value} (h : Facing u v a b) (hinside : FacingInside a b c d) :
      FacingInside u v c d

/-- Two values are equal as far as their parts are left aside: lists have the same length, maps have
the same keys, and values without parts are equal. -/
def SameShape : Value → Value → Prop
  | .list xs, v => ∃ ys, v = .list ys ∧ xs.length = ys.length
  | .map m, v => ∃ k, v = .map k ∧ ∀ key, key ∈ keys m ↔ key ∈ keys k
  | u, v => equal u v = true

/-- Equality that compares numbers as numbers at every depth: two values have the same shape, and
what stands at the same place in them is equal in the same way. -/
inductive Alike : Value → Value → Prop
  | intro {u v : Value} (hshape : SameShape u v) (hparts : ∀ a b, Facing u v a b → Alike a b) :
      Alike u v

private theorem alike_iff {u v : Value} :
    Alike u v ↔ SameShape u v ∧ ∀ a b, Facing u v a b → Alike a b :=
  ⟨fun ⟨hshape, hparts⟩ => ⟨hshape, hparts⟩, fun h => .intro h.1 h.2⟩

section Inside

variable {u v a b : Value}

private theorem Facing.sizeOf_lt (h : Facing u v a b) : sizeOf a < sizeOf u := by
  cases h with
  | items ha _ =>
      have hlt := List.sizeOf_lt_of_mem (List.mem_of_getElem? ha)
      simp only [Value.list.sizeOf_spec]
      omega
  | entries ha _ =>
      have hlt := List.sizeOf_lt_of_mem (Entries.mem_of_get? ha)
      simp only [Prod.mk.sizeOf_spec] at hlt
      simp only [Value.map.sizeOf_spec]
      omega

private theorem Facing.wellFormed (h : Facing u v a b) (hu : u.WellFormed) (hv : v.WellFormed) :
    a.WellFormed ∧ b.WellFormed := by
  cases h with
  | items ha hb =>
      exact ⟨Value.wellFormed_list.1 hu a (List.mem_of_getElem? ha),
        Value.wellFormed_list.1 hv b (List.mem_of_getElem? hb)⟩
  | entries ha hb => exact ⟨Value.wellFormed_of_get? hu ha, Value.wellFormed_of_get? hv hb⟩

/-- What holds inside of two values holds of their parts and inside of these. -/
theorem forall_facingInside_iff {P : Value → Value → Prop} :
    (∀ a b, FacingInside u v a b → P a b) ↔
      ∀ a b, Facing u v a b → P a b ∧ ∀ c d, FacingInside a b c d → P c d := by
  constructor
  · exact fun h a b hab => ⟨h a b (.part hab), fun c d hcd => h c d (.deeper hab hcd)⟩
  · intro h a b hab
    cases hab with
    | part hpart => exact (h a b hpart).1
    | deeper hpart hinside => exact (h _ _ hpart).2 a b hinside

end Inside

/-- Equality of two values by their shape and their parts. -/
theorem equal_iff_facing {u v : Value} (hu : u.WellFormed) (hv : v.WellFormed) :
    equal u v = true ↔
      SameShape u v ∧ ∀ a b, Facing u v a b → equal a b = true ∧ ¬ Crossed a b := by
  cases u with
  | list xs =>
      cases v with
      | list ys =>
          rw [equal_list_iff]
          constructor
          · rintro ⟨hlength, hitems⟩
            exact ⟨⟨ys, rfl, hlength⟩, fun a b (.items ha hb) => hitems _ a b ha hb⟩
          · rintro ⟨⟨_, ⟨⟩, hlength⟩, hparts⟩
            exact ⟨hlength, fun i a b ha hb => hparts a b (.items ha hb)⟩
      | _ => simp [equal, Value.same, SameShape]
  | map m =>
      cases v with
      | map k =>
          rw [equal_map_iff (Value.wellFormed_map.1 hu).1 (Value.wellFormed_map.1 hv).1]
          constructor
          · rintro ⟨hkeys, hvalues⟩
            exact ⟨⟨k, rfl, hkeys⟩, fun a b (.entries ha hb) => hvalues _ a b ha hb⟩
          · rintro ⟨⟨_, ⟨⟩, hkeys⟩, hparts⟩
            exact ⟨hkeys, fun key a b ha hb => hparts a b (.entries ha hb)⟩
      | _ => simp [equal, Value.same, SameShape]
  | _ => exact ⟨fun h => ⟨h, fun _ _ => nofun⟩, And.left⟩

/-- Equality is the one that compares numbers as numbers at every depth, except where an integer
meets a floating-point number inside of the two values. -/
theorem equal_iff_alike (u v : Value) (hu : u.WellFormed) (hv : v.WellFormed) :
    equal u v = true ↔ Alike u v ∧ ∀ a b, FacingInside u v a b → ¬ Crossed a b := by
  have hparts : ∀ a b, Facing u v a b →
      (equal a b = true ∧ ¬ Crossed a b ↔
        Alike a b ∧ ¬ Crossed a b ∧ ∀ c d, FacingInside a b c d → ¬ Crossed c d) := by
    intro a b hab
    have hdecreasing := hab.sizeOf_lt
    obtain ⟨ha, hb⟩ := hab.wellFormed hu hv
    rw [equal_iff_alike a b ha hb, and_assoc, and_congr_right_iff]
    exact fun _ => And.comm
  rw [equal_iff_facing hu hv, alike_iff, forall_facingInside_iff, and_assoc,
    and_congr_right_iff]
  intro _
  constructor
  · intro h
    exact ⟨fun a b hab => ((hparts a b hab).1 (h a b hab)).1,
      fun a b hab => ((hparts a b hab).1 (h a b hab)).2⟩
  · rintro ⟨halike, huncrossed⟩ a b hab
    exact (hparts a b hab).2 ⟨halike a b hab, huncrossed a b hab⟩
termination_by sizeOf u

/-! ## Operators and membership -/

/-- A list contains what one of its items equals. -/
theorem callMethod_contains (xs : List Value) (v : Value) :
    ∃ b, callMethod (.list xs) "contains" [v] = .ok (.bool b) ∧
      (b = true ↔ ∃ a ∈ xs, equal a v = true) :=
  ⟨xs.any fun a => equal a v, rfl, List.any_eq_true⟩

/-- Where two operands evaluate to values one after the other, `==` says whether these are equal and
`!=` whether they are not. Lists are equal if they have the same length and at each place equal
items, and maps if they have the same keys and equal values under each of them, where in both cases
no integer meets a floating-point number; what a list contains is equal to an item. So equality is
the one that compares numbers as numbers at every depth, except where an integer meets a
floating-point number inside of the two values. -/
theorem evaluate_equality {around : Surroundings} {x y : Expr} {u v : Value} {f f₁ f₂ : Frame}
    (hx : (evaluate around x).run f = (.ok u, f₁)) (hy : (evaluate around y).run f₁ = (.ok v, f₂))
    (hu : u.WellFormed) (hv : v.WellFormed) :
    let value (e : Expr) := ((evaluate around e).run f).1
    value (.binary .eq x y) = .ok (.bool (equal u v)) ∧
    value (.binary .ne x y) = .ok (.bool (!equal u v)) ∧
    (∀ xs ys, u = .list xs → v = .list ys →
      (equal u v = true ↔ xs.length = ys.length ∧ ∀ (i : Nat) a b,
        xs[i]? = some a → ys[i]? = some b → equal a b = true ∧ ¬ Crossed a b)) ∧
    (∀ m k, u = .map m → v = .map k →
      (equal u v = true ↔ (∀ key, key ∈ keys m ↔ key ∈ keys k) ∧ ∀ key a b,
        get? m key = some a → get? k key = some b → equal a b = true ∧ ¬ Crossed a b)) ∧
    (∀ xs, u = .list xs → ∃ b, callMethod u "contains" [v] = .ok (.bool b) ∧
      (b = true ↔ ∃ a ∈ xs, equal a v = true)) ∧
    (equal u v = true ↔ Alike u v ∧ ∀ a b, FacingInside u v a b → ¬ Crossed a b) := by
  refine ⟨congrArg Prod.fst (run_evaluate_binary (by decide) (by decide) hx hy),
    congrArg Prod.fst (run_evaluate_binary (by decide) (by decide) hx hy), ?_, ?_, ?_,
    equal_iff_alike u v hu hv⟩
  · rintro xs ys rfl rfl
    exact equal_list_iff
  · rintro m k rfl rfl
    exact equal_map_iff (Value.wellFormed_map.1 hu).1 (Value.wellFormed_map.1 hv).1
  · rintro xs rfl
    exact callMethod_contains xs v

/-- An integer meets a floating-point number under a key of an item. -/
theorem evaluate_equality_nested :
    let around : Surroundings := ⟨.empty, 0⟩
    let f : Frame := ⟨[], ⟨none, none⟩⟩
    let first : Value := .list [.null, .map [("a", .int 2)]]
    let second : Value := .list [.null, .map [("a", .float 2.0)]]
    (evaluate around (.literal first)).run f = (.ok first, f) ∧
    (evaluate around (.literal second)).run f = (.ok second, f) ∧
    first.WellFormed ∧ second.WellFormed ∧
    ((evaluate around (.binary .eq (.literal first) (.literal second))).run f).1 =
      .ok (.bool false) := by
  intro around f first second
  have hx := run_evaluate_literal around first f
  have hy := run_evaluate_literal around second f
  have hfirst : first.WellFormed := by simp [first]
  have hsecond : second.WellFormed := by simp [second]
  obtain ⟨heq, -, -, -, -, halike⟩ := evaluate_equality hx hy hfirst hsecond
  have hitems : Facing first second (.map [("a", .int 2)]) (.map [("a", .float 2.0)]) :=
    .items (i := 1) rfl rfl
  have hentries : Facing (.map [("a", .int 2)]) (.map [("a", .float 2.0)]) (.int 2) (.float 2.0) :=
    @Facing.entries _ _ "a" _ _ rfl rfl
  have hinside : FacingInside first second (.int 2) (.float 2.0) :=
    .deeper hitems (.part hentries)
  have hunequal : equal first second = false := by
    rw [← Bool.not_eq_true]
    exact fun h => (halike.1 h).2 _ _ hinside trivial
  rw [hunequal] at heq
  exact ⟨hx, hy, hfirst, hsecond, heq⟩

/-- Lists are not equal item by item: an integer equals a floating-point number and is found beside
it in a list, but the lists of the two differ. -/
theorem not_equal_itemwise :
    equal (.int 1) (.float 1.0) = true ∧
    callMethod (.list [.int 1]) "contains" [.float 1.0] = .ok (.bool true) ∧
    equal (.list [.int 1]) (.list [.float 1.0]) = false ∧
    ¬ ∀ xs ys, equal (.list xs) (.list ys) = true ↔ xs.length = ys.length ∧
      ∀ (i : Nat) a b, xs[i]? = some a → ys[i]? = some b → equal a b = true := by
  have hnumbers : equal (.int 1) (.float 1.0) = true := by decide +kernel
  have hcontains : callMethod (.list [.int 1]) "contains" [.float 1.0] = .ok (.bool true) := by
    obtain ⟨b, hb, hmem⟩ := callMethod_contains [.int 1] (.float 1.0)
    rw [hb, hmem.2 ⟨_, List.mem_singleton_self _, hnumbers⟩]
  have hlists : equal (.list [.int 1]) (.list [.float 1.0]) = false := rfl
  refine ⟨hnumbers, hcontains, hlists, fun hitemwise => ?_⟩
  have hequal : equal (.list [.int 1]) (.list [.float 1.0]) = true := by
    refine (hitemwise _ _).2 ⟨rfl, fun i a b ha hb => ?_⟩
    obtain rfl := List.mem_singleton.1 (List.mem_of_getElem? ha)
    obtain rfl := List.mem_singleton.1 (List.mem_of_getElem? hb)
    exact hnumbers
  rw [hlists] at hequal
  cases hequal

end InfraGraph.Block
