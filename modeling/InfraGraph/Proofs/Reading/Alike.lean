import InfraGraph.Proofs.Reading.Reader

/-!
# Readers that read alike

Two readers read alike if they make the same of lexemes with the same tokens, wherever these stand.
So a reader reads alike with itself, also if its bounds differ, as long as all of them are above the
number of lexemes. The second reader may be given more tokens at the end, none of which it takes:
they are left over.

## Main results

* `Alike` — two readers read alike.
* `Alike.bind`, `Alike.many`, `Alike.items` — sequences and repetitions of readers that read alike.
-/

namespace InfraGraph.Reading.Reader

variable {τ α β : Type} {bound least more : Nat} {tail : List τ} {xs ys : List (Lexeme τ)}

/-- Of lexemes `xs`, these are left over when at least `least` of them have been read; of others
with the same tokens and `tail` behind them, `others` are left over. -/
structure Leaves (least : Nat) (tail : List τ) (xs rest others : List (Lexeme τ)) : Prop where
  tokens : others.map Lexeme.token = rest.map Lexeme.token ++ tail
  suffix : rest <:+ xs
  length : rest.length + least ≤ xs.length

namespace Leaves

variable {rest others last lasts : List (Lexeme τ)}

/-- Before anything is read, all lexemes are left over. -/
theorem refl (hys : ys.map Lexeme.token = xs.map Lexeme.token ++ tail) : Leaves 0 tail xs xs ys :=
  ⟨hys, List.suffix_rfl, xs.length.le_refl⟩

/-- What is left over may be read on. -/
theorem trans (hfirst : Leaves least tail xs rest others)
    (hsecond : Leaves more tail rest last lasts) : Leaves (least + more) tail xs last lasts where
  tokens := hsecond.tokens
  suffix := hsecond.suffix.trans hfirst.suffix
  length := by
    have hrest := hfirst.length
    have hlast := hsecond.length
    omega

theorem mono {fewer : Nat} (h : Leaves least tail xs rest others) (hle : fewer ≤ least) :
    Leaves fewer tail xs rest others where
  tokens := h.tokens
  suffix := h.suffix
  length := by
    have hlength := h.length
    omega

end Leaves

/-- Fewer than `bound` lexemes, and others with the same tokens and `tail` behind them, are refused
by the one reader and the other, or both read the same from them, at least `least` lexemes. -/
def Alike (bound least : Nat) (tail : List τ) (p q : Reader τ α) : Prop :=
  ∀ xs ys, xs.length < bound → ys.map Lexeme.token = xs.map Lexeme.token ++ tail →
    (result p xs = none ∧ result q ys = none) ∨
      ∃ a rest others, result p xs = some (a, rest) ∧ result q ys = some (a, others) ∧
        Leaves least tail xs rest others

namespace Alike

variable {p q : Reader τ α}

theorem mono {bound' least' : Nat} (h : Alike bound least tail p q) (hbound : bound' ≤ bound)
    (hleast : least' ≤ least) : Alike bound' least' tail p q := by
  intro xs ys hxs hys
  rcases h xs ys (by omega) hys with hnone | ⟨a, rest, others, hp, hq, hleaves⟩
  · exact .inl hnone
  · exact .inr ⟨a, rest, others, hp, hq, hleaves.mono hleast⟩

theorem pure (a : α) : Alike bound 0 tail (Pure.pure a) (Pure.pure a) := fun xs ys _ hys =>
  .inr ⟨a, xs, ys, rfl, rfl, .refl hys⟩

theorem never : Alike bound least tail (Reader.never : Reader τ α) Reader.never := fun _ _ _ _ =>
  .inl ⟨rfl, rfl⟩

/-- A lexeme is read by its token, and no token of the tail is read. -/
theorem lexeme {what : List String} {judge : Lexeme τ → Verdict α}
    (hjudge : ∀ x y : Lexeme τ, x.token = y.token → judge x = judge y)
    (htail : ∀ x a, judge x = .take a → x.token ∉ tail) :
    Alike bound 1 tail (Reader.lexeme what judge) (Reader.lexeme what judge) := by
  intro xs ys hxs hys
  cases xs with
  | nil =>
      refine .inl ⟨rfl, ?_⟩
      cases ys with
      | nil => rfl
      | cons y ys =>
          have hy : y.token ∈ tail := by
            rw [List.map_nil, List.nil_append] at hys
            rw [← hys]
            exact List.mem_cons_self
          rw [result_lexeme_cons]
          cases hverdict : judge y with
          | take a => exact absurd hy (htail y a hverdict)
          | pass => rfl
          | refuse cause => rfl
  | cons x xs =>
      obtain ⟨y, ys, rfl, hy, hmore⟩ := List.map_eq_cons_iff.1 hys
      rw [result_lexeme_cons, result_lexeme_cons, hjudge y x hy]
      cases judge x with
      | take a =>
          exact .inr ⟨a, xs, ys, rfl, rfl, hmore, List.suffix_cons x xs, (xs.length + 1).le_refl⟩
      | pass => exact .inl ⟨rfl, rfl⟩
      | refuse cause => exact .inl ⟨rfl, rfl⟩

/-- Readers that read alike do so one after the other. -/
theorem bind {f g : α → Reader τ β} (hp : Alike bound least tail p q)
    (hf : ∀ a, Alike (bound - least) more tail (f a) (g a)) :
    Alike bound (least + more) tail (p >>= f) (q >>= g) := by
  intro xs ys hxs hys
  rw [result_bind, result_bind]
  rcases hp xs ys hxs hys with ⟨hpx, hqy⟩ | ⟨a, rest, others, hpx, hqy, hleaves⟩
  · rw [hpx, hqy]
    exact .inl ⟨rfl, rfl⟩
  · have hlength := hleaves.length
    rw [hpx, hqy, Option.bind_some, Option.bind_some]
    rcases hf a rest others (by omega) hleaves.tokens with hnone |
      ⟨b, last, lasts, hfx, hgy, hbehind⟩
    · exact .inl hnone
    · exact .inr ⟨b, last, lasts, hfx, hgy, hleaves.trans hbehind⟩

/-- What the first part reads is enough. -/
theorem bind_left {f g : α → Reader τ β} (hp : Alike bound least tail p q)
    (hf : ∀ a, Alike (bound - least) more tail (f a) (g a)) :
    Alike bound least tail (p >>= f) (q >>= g) :=
  (hp.bind hf).mono (Nat.le_refl bound) (Nat.le_add_right least more)

theorem map (f : α → β) (hp : Alike bound least tail p q) :
    Alike bound least tail (f <$> p) (f <$> q) :=
  hp.bind_left fun a => .pure (f a)

theorem orElse {p' q' : Reader τ α} (hp : Alike bound least tail p q)
    (hp' : Alike bound least tail p' q') : Alike bound least tail (p <|> p') (q <|> q') := by
  intro xs ys hxs hys
  rw [result_hOrElse, result_hOrElse]
  rcases hp xs ys hxs hys with ⟨hpx, hqy⟩ | ⟨a, rest, others, hpx, hqy, hleaves⟩
  · rw [hpx, hqy]
    exact hp' xs ys hxs hys
  · exact .inr ⟨a, rest, others, by rw [hpx]; rfl, by rw [hqy]; rfl, hleaves⟩

/-- What may be left out is read alike, too. -/
theorem optional (hp : Alike bound least tail p q) :
    Alike bound 0 tail (Reader.optional p) (Reader.optional q) := by
  intro xs ys hxs hys
  rw [result_optional, result_optional]
  rcases hp xs ys hxs hys with ⟨hpx, hqy⟩ | ⟨a, rest, others, hpx, hqy, hleaves⟩
  · rw [hpx, hqy]
    exact .inr ⟨none, xs, ys, rfl, rfl, .refl hys⟩
  · rw [hpx, hqy]
    exact .inr ⟨some a, rest, others, rfl, rfl, hleaves.mono (Nat.zero_le least)⟩

/-! ## Repetition

What is repeated reads a lexeme at least, so a bound that is not below the number of lexemes is
never the reason to stop. -/

theorem refuses_nil (hp : Alike bound 1 tail p q) (hbound : 0 < bound)
    (hys : ys.map Lexeme.token = tail) : result p [] = none ∧ result q ys = none := by
  rcases hp [] ys hbound hys with hnone | ⟨a, rest, others, -, -, hleaves⟩
  · exact hnone
  · exact absurd hleaves.length (by simp)

/-- A repetition is read alike if every item has a lexeme at least. -/
theorem many {m n : Nat} (hp : Alike bound 1 tail p q) (hm : bound ≤ m + 1) (hn : bound ≤ n + 1) :
    Alike bound 0 tail (Reader.many p m) (Reader.many q n) := by
  induction m generalizing n bound with
  | zero =>
      intro xs ys hxs hys
      obtain rfl : xs = [] := List.eq_nil_of_length_eq_zero (by omega)
      exact .inr ⟨[], [], ys, rfl, result_many_of_none (hp.refuses_nil hxs hys).2 n, .refl hys⟩
  | succ m ih =>
      intro xs ys hxs hys
      rcases hp xs ys hxs hys with ⟨hpx, hqy⟩ | ⟨a, rest, others, hpx, hqy, hleaves⟩
      · exact .inr ⟨[], xs, ys, result_many_of_none hpx _, result_many_of_none hqy n, .refl hys⟩
      · have hlength := hleaves.length
        obtain ⟨n, rfl⟩ : ∃ l, n = l + 1 := ⟨n - 1, by omega⟩
        have hmore := ih (n := n) (hp.mono (Nat.sub_le bound 1) (Nat.le_refl 1)) (by omega)
          (by omega)
        rw [result_many_succ, result_many_succ, hpx, hqy]
        dsimp only
        rcases hmore rest others (by omega) hleaves.tokens with ⟨hpx, hqy⟩ |
          ⟨as, last, lasts, hpx, hqy, hbehind⟩
        · rw [hpx, hqy]
          exact .inl ⟨rfl, rfl⟩
        · rw [hpx, hqy]
          exact .inr ⟨a :: as, last, lasts, rfl, rfl, (hleaves.trans hbehind).mono (Nat.zero_le _)⟩

variable {s t : Reader τ β}

/-- Items read alike if what follows the first of them does. -/
theorem items_of_moreItems {m n : Nat} (hp : Alike bound 1 tail p q)
    (hmore : Alike (bound - 1) 0 tail (Reader.moreItems p s m) (Reader.moreItems q t n)) :
    Alike bound 0 tail (Reader.items p s m) (Reader.items q t n) := by
  intro xs ys hxs hys
  rw [result_items, result_items]
  rcases hp xs ys hxs hys with ⟨hpx, hqy⟩ | ⟨a, rest, others, hpx, hqy, hleaves⟩
  · rw [hpx, hqy]
    exact .inr ⟨[], xs, ys, rfl, rfl, .refl hys⟩
  · have hlength := hleaves.length
    rw [hpx, hqy]
    dsimp only
    rcases hmore rest others (by omega) hleaves.tokens with ⟨hsx, hty⟩ |
      ⟨as, last, lasts, hsx, hty, hbehind⟩
    · rw [hsx, hty]
      exact .inl ⟨rfl, rfl⟩
    · rw [hsx, hty]
      exact .inr ⟨a :: as, last, lasts, rfl, rfl, (hleaves.trans hbehind).mono (Nat.zero_le _)⟩

private theorem moreItems {m n : Nat} (hp : Alike bound 1 tail p q) (hs : Alike bound 1 tail s t)
    (hm : bound ≤ m + 1) (hn : bound ≤ n + 1) :
    Alike bound 0 tail (Reader.moreItems p s m) (Reader.moreItems q t n) := by
  induction m generalizing n bound with
  | zero =>
      intro xs ys hxs hys
      obtain rfl : xs = [] := List.eq_nil_of_length_eq_zero (by omega)
      exact .inr ⟨[], [], ys, rfl, result_moreItems_of_none (hs.refuses_nil hxs hys).2 n, .refl hys⟩
  | succ m ih =>
      intro xs ys hxs hys
      rcases hs xs ys hxs hys with ⟨hsx, hty⟩ | ⟨b, rest, others, hsx, hty, hskip⟩
      · exact .inr ⟨[], xs, ys, result_moreItems_of_none hsx _, result_moreItems_of_none hty n,
          .refl hys⟩
      · have hlength := hskip.length
        obtain ⟨n, rfl⟩ : ∃ l, n = l + 1 := ⟨n - 1, by omega⟩
        have hmore : Alike (bound - 1) 0 tail (Reader.moreItems p s m) (Reader.moreItems q t n) :=
          ih (hp.mono (Nat.sub_le bound 1) (Nat.le_refl 1))
            (hs.mono (Nat.sub_le bound 1) (Nat.le_refl 1)) (by omega) (by omega)
        rw [result_moreItems_eq_items, result_moreItems_eq_items, hsx, hty]
        dsimp only
        rcases hp.items_of_moreItems hmore rest others (by omega) hskip.tokens with hnone |
          ⟨as, last, lasts, hpx, hqy, hbehind⟩
        · exact .inl hnone
        · exact .inr ⟨as, last, lasts, hpx, hqy, (hskip.trans hbehind).mono (Nat.zero_le _)⟩

/-- A list is read alike if every item and every separator has a lexeme at least. -/
theorem items {m n : Nat} (hp : Alike bound 1 tail p q) (hs : Alike bound 1 tail s t)
    (hm : bound ≤ m + 1) (hn : bound ≤ n + 1) :
    Alike bound 0 tail (Reader.items p s m) (Reader.items q t n) :=
  hp.items_of_moreItems ((hp.moreItems hs hm hn).mono (Nat.sub_le bound 1) (Nat.le_refl 0))

end Alike

end InfraGraph.Reading.Reader
