import InfraGraph.Proofs.Reading.Reader

/-!
# What readers consume

A reader consumes lexemes from the front of those that it is given, and it relates what it gives to
the lexemes that it has consumed: to their tokens and also to their places. This goes along the ways
in which readers are put together, whatever the lexemes are.

## Main results

* `Consumes.bind`, `Consumes.many`, `Consumes.items` — what sequences and repetitions consume.
-/

namespace InfraGraph.Reading.Reader

variable {τ α β : Type}

/-- What the reader accepts begins with lexemes that are related to what it gives. -/
def Consumes (p : Reader τ α) (L : List (Lexeme τ) → α → Prop) : Prop :=
  ∀ xs a rest, result p xs = some (a, rest) → ∃ ws, xs = ws ++ rest ∧ L ws a

namespace Consumes

variable {p q : Reader τ α} {L : List (Lexeme τ) → α → Prop}

/-- A reader that consumes lexemes of one kind consumes lexemes of a wider one. -/
theorem mono {M : List (Lexeme τ) → α → Prop} (hp : Consumes p L)
    (hLM : ∀ ws a, L ws a → M ws a) : Consumes p M := by
  intro xs a rest hresult
  obtain ⟨ws, hws, ha⟩ := hp xs a rest hresult
  exact ⟨ws, hws, hLM ws a ha⟩

theorem pure {a : α} (ha : L [] a) : Consumes (Pure.pure a) L := by
  intro xs b rest hresult
  cases hresult
  exact ⟨[], rfl, ha⟩

theorem never : Consumes (Reader.never : Reader τ α) L :=
  fun _ _ _ hresult => by cases hresult

/-- A lexeme is consumed alone. -/
theorem lexeme {what : List String} {judge : Lexeme τ → Verdict α}
    (hjudge : ∀ x a, judge x = .take a → L [x] a) : Consumes (Reader.lexeme what judge) L := by
  intro xs a rest hresult
  cases xs with
  | nil => cases hresult
  | cons x xs =>
      rw [result_lexeme_cons] at hresult
      cases hverdict : judge x with
      | take b =>
          rw [hverdict] at hresult
          cases hresult
          exact ⟨[x], rfl, hjudge x a hverdict⟩
      | pass => rw [hverdict] at hresult; cases hresult
      | refuse cause => rw [hverdict] at hresult; cases hresult

/-- A sequence consumes what its first part does, and then what its second part does. -/
theorem bind {f : α → Reader τ β} {M : List (Lexeme τ) → β → Prop} (hp : Consumes p L)
    (hf : ∀ us a, L us a → Consumes (f a) fun vs b => M (us ++ vs) b) :
    Consumes (p >>= f) M := by
  intro xs b rest hresult
  rw [result_bind] at hresult
  obtain ⟨⟨a, middle⟩, hfirst, hsecond⟩ := Option.bind_eq_some_iff.1 hresult
  obtain ⟨us, hus, ha⟩ := hp xs a middle hfirst
  obtain ⟨vs, hvs, hb⟩ := hf us a ha middle b rest hsecond
  exact ⟨us ++ vs, by rw [hus, hvs, List.append_assoc], hb⟩

theorem bind_pure {f : α → β} {M : List (Lexeme τ) → β → Prop} (hp : Consumes p L)
    (hf : ∀ ws a, L ws a → M ws (f a)) : Consumes (p >>= fun a => Pure.pure (f a)) M :=
  hp.bind fun us a ha => .pure (by rw [List.append_nil]; exact hf us a ha)

/-- A choice consumes what its alternatives do. -/
theorem orElse (hp : Consumes p L) (hq : Consumes q L) : Consumes (p <|> q) L := by
  intro xs a rest hresult
  rw [result_hOrElse, Option.or_eq_some_iff] at hresult
  rcases hresult with hfirst | ⟨-, hsecond⟩
  · exact hp xs a rest hfirst
  · exact hq xs a rest hsecond

/-- What may be left out consumes nothing if it is. -/
theorem optional {M : List (Lexeme τ) → Option α → Prop} (hp : Consumes p L)
    (hsome : ∀ ws a, L ws a → M ws (some a)) (hnone : M [] none) :
    Consumes (Reader.optional p) M := by
  intro xs o rest hresult
  rw [result_optional] at hresult
  cases hfirst : result p xs with
  | none =>
      rw [hfirst] at hresult
      cases hresult
      exact ⟨[], rfl, hnone⟩
  | some r =>
      rw [hfirst] at hresult
      cases hresult
      obtain ⟨ws, hws, ha⟩ := hp xs r.1 r.2 hfirst
      exact ⟨ws, hws, hsome ws r.1 ha⟩

/-! ### Repetition

What holds of the lexemes of several items is found from the end: it holds of none, and it holds
with one item more before them. -/

section Repetition

variable {M : List (Lexeme τ) → List α → Prop} (hnil : M [] [])
  (hcons : ∀ us a vs as, L us a → M vs as → M (us ++ vs) (a :: as))

include hnil hcons

/-- A repetition consumes what its items do, one after the other. -/
theorem many (hp : Consumes p L) (n : Nat) : Consumes (Reader.many p n) M := by
  induction n with
  | zero => exact .pure hnil
  | succ n ih =>
      rw [Reader.many]
      refine .bind (hp.optional (M := fun ws o => o.elim (ws = []) (L ws)) (fun _ _ h => h) rfl) ?_
      rintro us (_ | a) ha
      · subst ha
        exact .pure hnil
      · exact .bind_pure ih fun vs as has => hcons us a vs as ha has

variable {separator : Reader τ β} {S : List (Lexeme τ) → β → Prop}
  (hskip : ∀ us b vs as, S us b → M vs as → M (us ++ vs) as)

include hskip

private theorem moreItems (hp : Consumes p L) (hsep : Consumes separator S) (n : Nat) :
    Consumes (Reader.moreItems p separator n) M := by
  induction n with
  | zero => exact .pure hnil
  | succ n ih =>
      rw [Reader.moreItems]
      refine .bind
        (hsep.optional (M := fun ws o => o.elim (ws = []) (S ws)) (fun _ _ h => h) rfl) ?_
      rintro us (_ | b) hb
      · subst hb
        exact .pure hnil
      refine .bind (hp.optional (M := fun ws o => o.elim (ws = []) (L ws)) (fun _ _ h => h) rfl) ?_
      rintro vs (_ | a) ha
      · subst ha
        exact .pure (hskip us b [] [] hb hnil)
      · exact .bind_pure ih fun ws as has => hskip us b _ _ hb (hcons vs a ws as ha has)

/-- A list consumes its items and separators, one after the other. -/
theorem items (hp : Consumes p L) (hsep : Consumes separator S) (n : Nat) :
    Consumes (Reader.items p separator n) M := by
  rw [Reader.items]
  refine .bind (hp.optional (M := fun ws o => o.elim (ws = []) (L ws)) (fun _ _ h => h) rfl) ?_
  rintro us (_ | a) ha
  · subst ha
    exact .pure hnil
  · exact .bind_pure (hp.moreItems hnil hcons hskip hsep n) fun vs as has =>
      hcons us a vs as ha has

end Repetition

end Consumes

end InfraGraph.Reading.Reader
