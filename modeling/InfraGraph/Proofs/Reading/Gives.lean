import InfraGraph.Proofs.Reading.Reader
import InfraGraph.Proofs.Reading.Sequences
import Mathlib.Data.List.Forall2

/-!
# What readers give

What a reader gives, whatever it reads, are tokens of a language, with what they mean in it. Nothing
is accepted then that a grammar does not derive. Like what readers take, this goes along the ways in
which they are put together; nothing needs to be known of what follows.

## Main results

* `Gives.bind`, `Gives.many`, `Gives.moreItems` — what sequences and repetitions give.
* `Gives.many_forall`, `Gives.items_forall` — what holds of every item, whatever its tokens.
-/

namespace InfraGraph.Reading.Reader

variable {τ α β ι : Type}

/-- What the reader accepts are tokens of a language, with a meaning in it. -/
def Gives (p : Reader τ α) (L : List τ → α → Prop) : Prop :=
  ∀ xs a rest, result p xs = some (a, rest) →
    ∃ ts, xs.map Lexeme.token = ts ++ rest.map Lexeme.token ∧ L ts a

namespace Gives

variable {p q : Reader τ α} {L : List τ → α → Prop}

/-- A reader of a language is one of every wider language. -/
theorem mono {M : List τ → α → Prop} (hp : Gives p L) (hLM : ∀ ts a, L ts a → M ts a) :
    Gives p M := by
  intro xs a rest hresult
  obtain ⟨ts, hts, ha⟩ := hp xs a rest hresult
  exact ⟨ts, hts, hLM ts a ha⟩

theorem pure {a : α} (ha : L [] a) : Gives (Pure.pure a) L := by
  intro xs b rest hresult
  cases hresult
  exact ⟨[], rfl, ha⟩

/-- A lexeme is read as its token. -/
theorem lexeme {what : List String} {judge : Lexeme τ → Verdict α}
    (hjudge : ∀ x a, judge x = .take a → L [x.token] a) :
    Gives (Reader.lexeme what judge) L := by
  intro xs a rest hresult
  cases xs with
  | nil => cases hresult
  | cons x xs =>
      rw [result_lexeme_cons] at hresult
      cases hverdict : judge x with
      | take b =>
          rw [hverdict] at hresult
          cases hresult
          exact ⟨[x.token], rfl, hjudge x a hverdict⟩
      | pass => rw [hverdict] at hresult; cases hresult
      | refuse cause => rw [hverdict] at hresult; cases hresult

/-- A sequence gives tokens of the first language and then tokens of the second. -/
theorem bind {f : α → Reader τ β} {M : List τ → β → Prop} (hp : Gives p L)
    (hf : ∀ us a, L us a → Gives (f a) fun vs b => M (us ++ vs) b) :
    Gives (p >>= f) M := by
  intro xs b rest hresult
  rw [result_bind] at hresult
  obtain ⟨⟨a, middle⟩, hfirst, hsecond⟩ := Option.bind_eq_some_iff.1 hresult
  obtain ⟨us, hus, ha⟩ := hp xs a middle hfirst
  obtain ⟨vs, hvs, hb⟩ := hf us a ha middle b rest hsecond
  exact ⟨us ++ vs, by rw [hus, hvs, List.append_assoc], hb⟩

/-- A choice reads what its alternatives do. -/
theorem orElse (hp : Gives p L) (hq : Gives q L) : Gives (p <|> q) L := by
  intro xs a rest hresult
  rw [result_hOrElse, Option.or_eq_some_iff] at hresult
  rcases hresult with hfirst | ⟨-, hsecond⟩
  · exact hp xs a rest hfirst
  · exact hq xs a rest hsecond

/-- What may be left out has no tokens if it is. -/
theorem optional {M : List τ → Option α → Prop} (hp : Gives p L)
    (hsome : ∀ ts a, L ts a → M ts (some a)) (hnone : M [] none) :
    Gives (optional p) M := by
  intro xs o rest hresult
  rw [result_optional] at hresult
  cases hfirst : result p xs with
  | none =>
      rw [hfirst] at hresult
      cases hresult
      exact ⟨[], rfl, hnone⟩
  | some r =>
      rw [hfirst] at hresult
      cases hresult
      obtain ⟨ts, hts, ha⟩ := hp xs r.1 r.2 hfirst
      exact ⟨ts, hts, hsome ts r.1 ha⟩

/-! ### Repetition

An item that is given has the tokens of some derivation in `ι`, and `R` is what the derivation says
about it. -/

variable {tokens : ι → List τ} {R : ι → α → Prop}

/-- A repetition gives the tokens of one item after the other. -/
theorem many (hp : Gives p fun ts a => ∃ i, ts = tokens i ∧ R i a) (n : Nat) :
    Gives (Reader.many p n) fun ts as =>
      ∃ is : List ι, ts = is.flatMap tokens ∧ List.Forall₂ R is as := by
  induction n with
  | zero => exact .pure ⟨[], rfl, .nil⟩
  | succ n ih =>
      intro xs as rest hresult
      rw [result_many_succ] at hresult
      cases hfirst : result p xs with
      | none =>
          rw [hfirst] at hresult
          cases hresult
          exact ⟨[], rfl, [], rfl, .nil⟩
      | some r =>
          rw [hfirst] at hresult
          obtain ⟨⟨more, last⟩, hmore, heq⟩ := Option.map_eq_some_iff.1 hresult
          cases heq
          obtain ⟨_, hus, i, rfl, hi⟩ := hp xs r.1 r.2 hfirst
          obtain ⟨_, hvs, is, rfl, his⟩ := ih r.2 more last hmore
          refine ⟨tokens i ++ is.flatMap tokens, ?_, i :: is, rfl, .cons hi his⟩
          rw [hus, hvs, List.append_assoc]

variable {separator : Reader τ β} {sep : τ}

/-- Further items give their tokens, each behind a separator; one separator may stand
behind the last. -/
theorem moreItems (hp : Gives p fun ts a => ∃ i, ts = tokens i ∧ R i a)
    (hsep : Gives separator fun ts _ => ts = [sep]) (n : Nat) :
    Gives (Reader.moreItems p separator n) fun ts as => ∃ (is : List ι) (trailing : Bool),
      ts = moreTokens sep tokens is trailing ∧ List.Forall₂ R is as := by
  induction n with
  | zero => exact .pure ⟨[], false, rfl, .nil⟩
  | succ n ih =>
      intro xs as rest hresult
      rw [result_moreItems_succ] at hresult
      cases hfirst : result separator xs with
      | none =>
          rw [hfirst] at hresult
          cases hresult
          exact ⟨[], rfl, [], false, rfl, .nil⟩
      | some r =>
          rw [hfirst] at hresult
          dsimp only at hresult
          obtain ⟨_, hcomma, rfl⟩ := hsep xs r.1 r.2 hfirst
          cases hsecond : result p r.2 with
          | none =>
              rw [hsecond] at hresult
              cases hresult
              exact ⟨[sep], hcomma, [], true, rfl, .nil⟩
          | some s =>
              rw [hsecond] at hresult
              obtain ⟨⟨more, last⟩, hmore, heq⟩ := Option.map_eq_some_iff.1 hresult
              cases heq
              obtain ⟨_, hus, i, rfl, hi⟩ := hp r.2 s.1 s.2 hsecond
              obtain ⟨_, hvs, is, trailing, rfl, his⟩ := ih s.2 more last hmore
              refine ⟨moreTokens sep tokens (i :: is) trailing, ?_, i :: is, trailing, rfl,
                .cons hi his⟩
              rw [hcomma, hus, hvs, moreTokens_cons]
              simp only [List.cons_append, List.nil_append, List.append_assoc]

/-- A list gives nothing, or the tokens of a first item and of further ones. -/
theorem items (hp : Gives p fun ts a => ∃ i, ts = tokens i ∧ R i a)
    (hsep : Gives separator fun ts _ => ts = [sep]) (n : Nat) :
    Gives (Reader.items p separator n) fun ts as => (ts = [] ∧ as = []) ∨
      ∃ (i : ι) (is : List ι) (trailing : Bool),
        ts = tokens i ++ moreTokens sep tokens is trailing ∧ List.Forall₂ R (i :: is) as := by
  intro xs as rest hresult
  rw [result_items] at hresult
  cases hfirst : result p xs with
  | none =>
      rw [hfirst] at hresult
      cases hresult
      exact ⟨[], rfl, Or.inl ⟨rfl, rfl⟩⟩
  | some r =>
      rw [hfirst] at hresult
      obtain ⟨⟨more, last⟩, hmore, heq⟩ := Option.map_eq_some_iff.1 hresult
      cases heq
      obtain ⟨_, hus, i, rfl, hi⟩ := hp xs r.1 r.2 hfirst
      obtain ⟨_, hvs, is, trailing, rfl, his⟩ := hp.moreItems hsep n r.2 more last hmore
      refine ⟨tokens i ++ moreTokens sep tokens is trailing, ?_,
        Or.inr ⟨i, is, trailing, rfl, .cons hi his⟩⟩
      rw [hus, hvs, List.append_assoc]

/-! ### Properties

Where nothing is said about the tokens, repetitions give what has the property item by item. -/

variable {Q : α → Prop}

/-- What is made of the result does not change the tokens. -/
theorem map {T : β → Prop} {f : α → β} (hp : Gives p fun _ a => Q a) (hf : ∀ a, Q a → T (f a)) :
    Gives (f <$> p) fun _ b => T b :=
  hp.bind fun _ a ha => .pure (hf a ha)

private theorem forall_of_forall₂ {is : List ι} {as : List α}
    (h : List.Forall₂ (fun _ a => Q a) is as) : ∀ a ∈ as, Q a := by
  induction h with
  | nil => simp
  | cons ha _ ih => exact List.forall_mem_cons.2 ⟨ha, ih⟩

/-- What holds of every item that is read holds of all items of a repetition. -/
theorem many_forall (hp : Gives p fun _ a => Q a) (n : Nat) :
    Gives (Reader.many p n) fun _ as => ∀ a ∈ as, Q a := by
  have hitem : Gives p fun ts a => ∃ us, ts = id us ∧ Q a := hp.mono fun ts _ h => ⟨ts, rfl, h⟩
  exact (hitem.many n).mono fun _ _ ⟨_, _, h⟩ => forall_of_forall₂ h

/-- What holds of every item that is read holds of all items of a list. -/
theorem items_forall (hp : Gives p fun _ a => Q a) (hsep : Gives separator fun ts _ => ts = [sep])
    (n : Nat) : Gives (Reader.items p separator n) fun _ as => ∀ a ∈ as, Q a := by
  have hitem : Gives p fun ts a => ∃ us, ts = id us ∧ Q a := hp.mono fun ts _ h => ⟨ts, rfl, h⟩
  refine (hitem.items hsep n).mono ?_
  rintro _ as (⟨_, rfl⟩ | ⟨_, _, _, _, h⟩)
  · simp
  · exact forall_of_forall₂ h

end Gives

end InfraGraph.Reading.Reader
