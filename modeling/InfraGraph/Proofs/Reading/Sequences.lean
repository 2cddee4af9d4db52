import Mathlib.Data.List.Forall2

/-!
# Sequences of tokens

The tokens of a repetition are those of one item after the other. The tokens of a list with
separators are those of a first item, and of further ones behind a separator each; one more
separator may end the list. Either way the items can be told apart again: it is enough that the
tokens of one item are, and that no item begins like what stands behind the last one.

## Main results

* `flatMap_append_cancel` — a repetition is the repetition of one list of items only.
* `moreTokens_append_cancel` — so is a list with separators.
-/

namespace InfraGraph.Reading

variable {τ ι : Type} {tokens : ι → List τ} {items others : List ι}

/-- The tokens of further items, each behind a separator, and of a separator that ends the list. -/
def moreTokens (sep : τ) (tokens : ι → List τ) (items : List ι) (trailing : Bool) : List τ :=
  (items.flatMap fun i => sep :: tokens i) ++ if trailing then [sep] else []

@[simp] theorem moreTokens_cons (sep : τ) (i : ι) (items : List ι) (trailing : Bool) :
    moreTokens sep tokens (i :: items) trailing =
      sep :: (tokens i ++ moreTokens sep tokens items trailing) := by
  simp [moreTokens]

@[simp] theorem moreTokens_nil_true (sep : τ) : moreTokens sep tokens [] true = [sep] := rfl

@[simp] theorem moreTokens_nil_false (sep : τ) : moreTokens sep tokens [] false = [] := rfl

theorem length_le_length_moreTokens (tokens : ι → List τ) (sep : τ) (items : List ι)
    (trailing : Bool) :
    items.length ≤ (moreTokens sep tokens items trailing).length := by
  induction items with
  | nil => exact Nat.zero_le _
  | cons i items ih =>
      simp only [moreTokens_cons, List.length_cons, List.length_append]
      omega

theorem length_le_length_flatMap (tokens : ι → List τ) (h : ∀ i ∈ items, tokens i ≠ []) :
    items.length ≤ (items.flatMap tokens).length := by
  induction items with
  | nil => exact Nat.zero_le _
  | cons i items ih =>
      have hi := List.length_pos_iff.2 (h i List.mem_cons_self)
      have hmore := ih fun j hj => h j (List.mem_cons_of_mem i hj)
      rw [List.flatMap_cons, List.length_append, List.length_cons]
      omega

/-- Tokens of an item that are not those of another one, whatever follows; `Follow` is what may
follow. -/
def Distinct (tokens : ι → List τ) (Follow : List τ → Prop) (i : ι) : Prop :=
  ∀ (j : ι) (r s : List τ), Follow r → Follow s → tokens i ++ r = tokens j ++ s → i = j ∧ r = s

variable {Follow : List τ → Prop} {close sep : τ} {r s : List τ}

/-- The items of a repetition can be told from its tokens. -/
theorem flatMap_append_cancel (hitem : ∀ i ∈ items, Distinct tokens Follow i)
    (hfollow : ∀ i r, Follow (tokens i ++ r)) (hclose : ∀ r, Follow (close :: r))
    (hstart : ∀ i r s, tokens i ++ r ≠ close :: s)
    (h : items.flatMap tokens ++ close :: r = others.flatMap tokens ++ close :: s) :
    items = others ∧ r = s := by
  have hrest : ∀ (is : List ι) (r : List τ), Follow (is.flatMap tokens ++ close :: r) := by
    intro is r
    cases is with
    | nil => exact hclose r
    | cons i is =>
        rw [List.flatMap_cons, List.append_assoc]
        exact hfollow i _
  induction items generalizing others with
  | nil =>
      cases others with
      | nil => exact ⟨rfl, List.tail_eq_of_cons_eq h⟩
      | cons j others =>
          rw [List.flatMap_cons, List.append_assoc] at h
          exact absurd h.symm (hstart j _ r)
  | cons i items ih =>
      cases others with
      | nil =>
          rw [List.flatMap_cons, List.append_assoc] at h
          exact absurd h (hstart i _ s)
      | cons j others =>
          simp only [List.flatMap_cons, List.append_assoc] at h
          obtain ⟨rfl, hmore⟩ := hitem i List.mem_cons_self j _ _ (hrest items r)
            (hrest others s) h
          obtain ⟨rfl, rfl⟩ := ih (fun k hk => hitem k (List.mem_cons_of_mem i hk)) hmore
          exact ⟨rfl, rfl⟩

/-- The items of a list with separators can be told from its tokens. -/
theorem moreTokens_append_cancel {b c : Bool} (hsep : sep ≠ close)
    (hitem : ∀ i ∈ items, Distinct tokens (fun _ => True) i)
    (hstart : ∀ i r s, tokens i ++ r ≠ close :: s)
    (h : moreTokens sep tokens items b ++ close :: r =
      moreTokens sep tokens others c ++ close :: s) :
    items = others ∧ b = c ∧ r = s := by
  induction items generalizing others with
  | nil =>
      cases others with
      | nil =>
          cases b with
          | false =>
              cases c with
              | false => exact ⟨rfl, rfl, List.tail_eq_of_cons_eq h⟩
              | true => exact absurd (List.head_eq_of_cons_eq h).symm hsep
          | true =>
              cases c with
              | false => exact absurd (List.head_eq_of_cons_eq h) hsep
              | true =>
                  exact ⟨rfl, rfl, List.tail_eq_of_cons_eq (List.tail_eq_of_cons_eq h)⟩
      | cons j others =>
          rw [moreTokens_cons, List.cons_append, List.append_assoc] at h
          cases b with
          | false => exact absurd (List.head_eq_of_cons_eq h).symm hsep
          | true => exact absurd (List.tail_eq_of_cons_eq h).symm (hstart j _ r)
  | cons i items ih =>
      rw [moreTokens_cons, List.cons_append, List.append_assoc] at h
      cases others with
      | nil =>
          cases c with
          | false => exact absurd (List.head_eq_of_cons_eq h) hsep
          | true => exact absurd (List.tail_eq_of_cons_eq h) (hstart i _ s)
      | cons j others =>
          rw [moreTokens_cons, List.cons_append, List.append_assoc] at h
          obtain ⟨rfl, hmore⟩ := hitem i List.mem_cons_self j _ _ trivial trivial
            (List.tail_eq_of_cons_eq h)
          obtain ⟨rfl, rfl, rfl⟩ := ih (fun k hk => hitem k (List.mem_cons_of_mem i hk)) hmore
          exact ⟨rfl, rfl, rfl⟩

/-- Two functions that agree on corresponding items make the same list of them. -/
theorem map_eq_map_of_forall₂ {α β γ : Type} {f : β → γ} {g : α → γ} {as : List α} {bs : List β}
    (h : List.Forall₂ (fun a b => f b = g a) as bs) : bs.map f = as.map g := by
  induction h with
  | nil => rfl
  | cons hab _ ih => rw [List.map_cons, List.map_cons, hab, ih]

theorem flatMap_eq_flatMap_of_forall₂ {α β γ : Type} {f : β → List γ} {g : α → List γ}
    {as : List α} {bs : List β} (h : List.Forall₂ (fun a b => f b = g a) as bs) :
    bs.flatMap f = as.flatMap g := by
  rw [List.flatMap_def, List.flatMap_def, map_eq_map_of_forall₂ h]

theorem moreTokens_eq_of_forall₂ {α β : Type} {f : β → List τ} {g : α → List τ} {as : List α}
    {bs : List β} (h : List.Forall₂ (fun a b => f b = g a) as bs) (sep : τ) (trailing : Bool) :
    moreTokens sep f bs trailing = moreTokens sep g as trailing := by
  rw [moreTokens, moreTokens,
    flatMap_eq_flatMap_of_forall₂ (h.imp fun _ _ hab => congrArg (sep :: ·) hab)]

/-- A list of items, each of which has a corresponding one, has a corresponding list. -/
theorem exists_forall₂ {α β : Type} {R : α → β → Prop} {as : List α}
    (h : ∀ a ∈ as, ∃ b, R a b) : ∃ bs, List.Forall₂ R as bs := by
  induction as with
  | nil => exact ⟨[], .nil⟩
  | cons a as ih =>
      obtain ⟨b, hb⟩ := h a List.mem_cons_self
      obtain ⟨bs, hbs⟩ := ih fun c hc => h c (List.mem_cons_of_mem a hc)
      exact ⟨b :: bs, .cons hb hbs⟩

/-! ## The parts of a repetition -/

section Locate

variable {σ : Type} {f : σ → τ} {ws : List σ}

/-- The items of a repetition with the part of the text that belongs to each of them. -/
def locate (tokens : ι → List τ) : List ι → List σ → List (ι × List σ)
  | [], _ => []
  | i :: items, ws =>
      (i, ws.take (tokens i).length) :: locate tokens items (ws.drop (tokens i).length)

theorem map_fst_locate (tokens : ι → List τ) (items : List ι) (ws : List σ) :
    (locate tokens items ws).map Prod.fst = items := by
  induction items generalizing ws with
  | nil => rfl
  | cons i items ih => rw [locate, List.map_cons, ih]

theorem length_locate (items : List ι) (ws : List σ) :
    (locate tokens items ws).length = items.length := by
  rw [← List.length_map (f := Prod.fst), map_fst_locate]

theorem fst_mem_of_mem_locate {l : ι × List σ} (hl : l ∈ locate tokens items ws) :
    l.1 ∈ items := by
  rw [← map_fst_locate tokens items ws]
  exact List.mem_map_of_mem hl

/-- The parts of the items make the whole text. -/
theorem flatMap_locate (hws : ws.map f = items.flatMap tokens) :
    (locate tokens items ws).flatMap Prod.snd = ws := by
  induction items generalizing ws with
  | nil => exact (List.map_eq_nil_iff.1 hws).symm
  | cons i items ih =>
      obtain ⟨first, more, rfl, hfirst, hmore⟩ := List.map_eq_append_iff.1 hws
      have hlength : (tokens i).length = first.length := by rw [← hfirst, List.length_map]
      rw [locate, hlength, List.take_left, List.drop_left, List.flatMap_cons, ih hmore]

/-- What stands behind the last item does not matter. -/
theorem locate_append (hws : ws.map f = items.flatMap tokens) (rest : List σ) :
    locate tokens items (ws ++ rest) = locate tokens items ws := by
  induction items generalizing ws with
  | nil => rfl
  | cons i items ih =>
      obtain ⟨first, more, rfl, hfirst, hmore⟩ := List.map_eq_append_iff.1 hws
      have hlength : (tokens i).length = first.length := by rw [← hfirst, List.length_map]
      rw [locate, locate, hlength, List.append_assoc, List.take_left, List.take_left,
        List.drop_left, List.drop_left, ih hmore]

/-- Each part has the tokens of its item. -/
theorem map_of_mem_locate {l : ι × List σ} (hws : ws.map f = items.flatMap tokens)
    (hl : l ∈ locate tokens items ws) : l.2.map f = tokens l.1 := by
  induction items generalizing ws with
  | nil => cases hl
  | cons i items ih =>
      obtain ⟨first, more, rfl, hfirst, hmore⟩ := List.map_eq_append_iff.1 hws
      have hlength : (tokens i).length = first.length := by rw [← hfirst, List.length_map]
      rw [locate, hlength, List.take_left, List.drop_left] at hl
      rcases List.mem_cons.1 hl with rfl | hl
      · exact hfirst
      · exact ih hmore hl

end Locate

end InfraGraph.Reading
