import InfraGraph.Proofs.Reading.Reader
import InfraGraph.Proofs.Reading.Sequences
import Mathlib.Data.List.Forall2

/-!
# What readers take

A reader takes certain tokens, where certain lexemes follow, if it accepts these tokens wherever
they stand and leaves what follows. Nothing that a grammar derives is refused then. This goes along
the ways in which readers are put together, so every reader of a grammar needs one step only.

A repetition reads on as long as it can. It takes what it should only if it cannot read on where it
should end, which is what the hypotheses on the lexemes that follow are for.

## Main results

* `Takes.bind`, `Takes.many`, `Takes.moreItems` — what sequences and repetitions take.
* `exists_result_many` — what a repetition makes of items whose lexemes are known.
-/

namespace InfraGraph.Reading.Reader

variable {τ α β ι : Type}

/-- The reader takes the tokens where `rest` follows, wherever they stand in the text,
and what it makes of them satisfies `P`. -/
def Takes (p : Reader τ α) (ts : List τ) (P : α → Prop) (rest : List (Lexeme τ)) : Prop :=
  ∀ ws : List (Lexeme τ), ws.map Lexeme.token = ts →
    ∃ a, result p (ws ++ rest) = some (a, rest) ∧ P a

/-- The reader takes nothing where the tokens stand before `rest`. -/
def Refuses (p : Reader τ α) (ts : List τ) (rest : List (Lexeme τ)) : Prop :=
  ∀ ws : List (Lexeme τ), ws.map Lexeme.token = ts → result p (ws ++ rest) = none

section Repetition

variable {p : Reader τ α} {R : ι → α → Prop} {rest : List (Lexeme τ)} {n : Nat} {is : List ι}

/-- A repetition reads one item after the other, each from lexemes of its own. An item is read where
`Follow` holds of what follows and no more than `bound` lexemes are left. -/
theorem exists_result_many (lexemes : ι → List (Lexeme τ)) (Follow : List (Lexeme τ) → Prop)
    (bound : Nat)
    (hitem : ∀ i ∈ is, ∀ rest, (lexemes i).length + rest.length ≤ bound → Follow rest →
      ∃ a, result p (lexemes i ++ rest) = some (a, rest) ∧ R i a)
    (hfollow : ∀ i ∈ is, ∀ more, Follow (lexemes i ++ more))
    (hrest : Follow rest) (hstop : result p rest = none)
    (hbound : (is.flatMap lexemes).length + rest.length ≤ bound) (hn : is.length ≤ n) :
    ∃ as, result (many p n) (is.flatMap lexemes ++ rest) = some (as, rest) ∧
      List.Forall₂ R is as := by
  induction is generalizing n with
  | nil => exact ⟨[], result_many_of_none hstop n, .nil⟩
  | cons i is ih =>
      obtain ⟨n, rfl⟩ : ∃ m, n = m + 1 := ⟨n - 1, by simp at hn; omega⟩
      simp only [List.flatMap_cons, List.length_append, List.length_cons] at hbound hn
      obtain ⟨as, hresults, has⟩ := ih (fun j hj => hitem j (List.mem_cons_of_mem i hj))
        (fun j hj => hfollow j (List.mem_cons_of_mem i hj)) (by omega) (n := n) (by omega)
      -- What follows the item is the next one or the end.
      have hnext : Follow (is.flatMap lexemes ++ rest) := by
        cases is with
        | nil => exact hrest
        | cons j js =>
            rw [List.flatMap_cons, List.append_assoc]
            exact hfollow j (by simp) _
      obtain ⟨a, hresult, ha⟩ := hitem i List.mem_cons_self (is.flatMap lexemes ++ rest)
        (by rw [List.length_append]; omega) hnext
      refine ⟨a :: as, ?_, .cons ha has⟩
      rw [List.flatMap_cons, List.append_assoc, result_many_succ, hresult]
      dsimp only
      rw [hresults]
      rfl

end Repetition

namespace Takes

variable {p q : Reader τ α} {ts us : List τ} {P : α → Prop} {rest : List (Lexeme τ)}

theorem mono {Q : α → Prop} (hp : Takes p ts P rest) (hPQ : ∀ a, P a → Q a) :
    Takes p ts Q rest := by
  intro ws hws
  obtain ⟨a, hresult, ha⟩ := hp ws hws
  exact ⟨a, hresult, hPQ a ha⟩

theorem lexeme {what : List String} {judge : Lexeme τ → Verdict α} {t : τ}
    (hjudge : ∀ x, x.token = t → ∃ a, judge x = .take a ∧ P a) :
    Takes (Reader.lexeme what judge) [t] P rest := by
  intro ws hws
  obtain ⟨x, more, rfl, hx, hmore⟩ := List.map_eq_cons_iff.1 hws
  rw [List.map_eq_nil_iff.1 hmore]
  obtain ⟨a, htake, ha⟩ := hjudge x hx
  refine ⟨a, ?_, ha⟩
  rw [List.singleton_append, result_lexeme_cons, htake]

/-- The second reader takes what the first one leaves. -/
theorem bind {f : α → Reader τ β} {Q : β → Prop}
    (hp : ∀ ws : List (Lexeme τ), ws.map Lexeme.token = us → Takes p ts P (ws ++ rest))
    (hf : ∀ a, P a → Takes (f a) us Q rest) : Takes (p >>= f) (ts ++ us) Q rest := by
  intro ws hws
  obtain ⟨first, second, rfl, hfirst, hsecond⟩ := List.map_eq_append_iff.1 hws
  obtain ⟨a, hresult, ha⟩ := hp second hsecond first hfirst
  obtain ⟨b, hmore, hb⟩ := hf a ha second hsecond
  refine ⟨b, ?_, hb⟩
  rw [List.append_assoc, result_bind, hresult]
  exact hmore

/-- The first reader takes a token, and the second one takes what follows it. -/
theorem bind_cons {t : τ} {f : α → Reader τ β} {Q : β → Prop}
    (hp : ∀ rest, Takes p [t] P rest) (hf : ∀ a, P a → Takes (f a) us Q rest) :
    Takes (p >>= f) (t :: us) Q rest :=
  bind (fun _ _ => hp _) hf

theorem bind_pure {f : α → β} {Q : β → Prop} (hp : Takes p ts P rest)
    (hf : ∀ a, P a → Q (f a)) : Takes (p >>= fun a => Pure.pure (f a)) ts Q rest := by
  intro ws hws
  obtain ⟨a, hresult, ha⟩ := hp ws hws
  refine ⟨f a, ?_, hf a ha⟩
  rw [result_bind, hresult]
  rfl

theorem map {f : α → β} {Q : β → Prop} (hp : Takes p ts P rest)
    (hf : ∀ a, P a → Q (f a)) : Takes (f <$> p) ts Q rest :=
  hp.bind_pure hf

/-- The first alternative that takes the tokens is chosen. -/
theorem orElse_left (hp : Takes p ts P rest) : Takes (p <|> q) ts P rest := by
  intro ws hws
  obtain ⟨a, hresult, ha⟩ := hp ws hws
  refine ⟨a, ?_, ha⟩
  rw [result_hOrElse, hresult]
  rfl

/-- The second alternative takes the tokens if the first one refuses them. -/
theorem orElse_right (hp : Refuses p ts rest) (hq : Takes q ts P rest) :
    Takes (p <|> q) ts P rest := by
  intro ws hws
  obtain ⟨a, hresult, ha⟩ := hq ws hws
  refine ⟨a, ?_, ha⟩
  rw [result_hOrElse, hp ws hws, hresult]
  rfl

/-- What may be left out is taken if it is there. -/
theorem optional_some (hp : Takes p ts P rest) :
    Takes (optional p) ts (fun o => ∃ a, o = some a ∧ P a) rest := by
  intro ws hws
  obtain ⟨a, hresult, ha⟩ := hp ws hws
  refine ⟨some a, ?_, a, rfl, ha⟩
  rw [result_optional, hresult]

/-- Nothing is taken where what may be left out is not there. -/
theorem optional_none (hp : result p rest = none) :
    Takes (optional p) [] (fun o => o = none) rest := by
  intro ws hws
  rw [List.map_eq_nil_iff.1 hws]
  refine ⟨none, ?_, rfl⟩
  rw [List.nil_append, result_optional, hp]

/-! ### Repetition

The items of a repetition are given by `is`, with `tokens` for each of them. An item is taken where
`Follow` holds of what follows and no more than `bound` lexemes are left. -/

variable {R : ι → α → Prop} {n : Nat} {is : List ι}

/-- Items are taken one after the other, up to where no further one can be read. -/
theorem many (tokens : ι → List τ) (Follow : List (Lexeme τ) → Prop) (bound : Nat)
    (hitem : ∀ i ∈ is, ∀ rest, (tokens i).length + rest.length ≤ bound → Follow rest →
      Takes p (tokens i) (R i) rest)
    (hfollow : ∀ i ∈ is, ∀ ws more, ws.map Lexeme.token = tokens i → Follow (ws ++ more))
    (hrest : Follow rest) (hstop : result p rest = none)
    (hbound : (is.flatMap tokens).length + rest.length ≤ bound) (hn : is.length ≤ n) :
    Takes (Reader.many p n) (is.flatMap tokens) (List.Forall₂ R is) rest := by
  intro ws hws
  have hplaced : ∀ l ∈ locate tokens is ws, l.2.map Lexeme.token = tokens l.1 :=
    fun l hl => map_of_mem_locate hws hl
  have hmem : ∀ l ∈ locate tokens is ws, l.1 ∈ is := fun l hl => fst_mem_of_mem_locate hl
  have hlength : ws.length = (is.flatMap tokens).length := by rw [← hws, List.length_map]
  obtain ⟨as, hresult, has⟩ := exists_result_many (n := n) Prod.snd Follow bound
    (fun l (hl : l ∈ locate tokens is ws) rest hle hfollows => hitem l.1 (hmem l hl) rest
      (by rw [← hplaced l hl, List.length_map]; exact hle) hfollows l.2 (hplaced l hl))
    (fun l hl more => hfollow l.1 (hmem l hl) l.2 more (hplaced l hl)) hrest hstop
    (by rw [flatMap_locate hws, hlength]; exact hbound) (by rw [length_locate]; exact hn)
  refine ⟨as, by rwa [flatMap_locate hws] at hresult, ?_⟩
  rw [← map_fst_locate tokens is ws]
  exact List.forall₂_map_left_iff.2 has

variable {separator : Reader τ β} {sep : τ}

/-- Further items begin with a separator, and so does what ends the list. -/
theorem follow_moreTokens {tokens : ι → List τ} {Follow : List (Lexeme τ) → Prop}
    {trailing : Bool} {more : List (Lexeme τ)}
    (hfollow : ∀ x more, x.token = sep → Follow (x :: more)) (hrest : Follow rest)
    (hmore : more.map Lexeme.token = moreTokens sep tokens is trailing) :
    Follow (more ++ rest) := by
  cases more with
  | nil => exact hrest
  | cons x more =>
      refine hfollow x _ ?_
      cases is with
      | nil =>
          cases trailing with
          | false => simp [moreTokens] at hmore
          | true =>
              simp only [moreTokens, List.flatMap_nil, List.nil_append, if_true,
                List.map_cons, List.cons.injEq] at hmore
              exact hmore.1
      | cons j js =>
          simp only [moreTokens, List.flatMap_cons, List.cons_append, List.map_cons,
            List.cons.injEq] at hmore
          exact hmore.1

/-- Items behind separators are taken up to where no further separator can be read. -/
theorem moreItems (tokens : ι → List τ) (Follow : List (Lexeme τ) → Prop) (bound : Nat)
    {trailing : Bool}
    (hsep : ∀ rest, Takes separator [sep] (fun _ => True) rest)
    (hitem : ∀ i ∈ is, ∀ rest, (tokens i).length + rest.length ≤ bound → Follow rest →
      Takes p (tokens i) (R i) rest)
    (hfollow : ∀ x more, x.token = sep → Follow (x :: more))
    (hrest : Follow rest) (hstop : result separator rest = none)
    (hend : result p rest = none)
    (hbound : (moreTokens sep tokens is trailing).length + rest.length ≤ bound)
    (hn : is.length < n) :
    Takes (Reader.moreItems p separator n) (moreTokens sep tokens is trailing)
      (List.Forall₂ R is) rest := by
  induction is generalizing n with
  | nil =>
      obtain ⟨n, rfl⟩ : ∃ m, n = m + 1 := ⟨n - 1, by simp at hn; omega⟩
      intro ws hws
      refine ⟨[], ?_, .nil⟩
      cases trailing with
      | false =>
          rw [List.map_eq_nil_iff.1 hws, List.nil_append, result_moreItems_succ, hstop]
      | true =>
          obtain ⟨b, hresult, -⟩ := hsep rest ws hws
          rw [result_moreItems_succ, hresult]
          dsimp only
          rw [hend]
  | cons i is ih =>
      obtain ⟨n, rfl⟩ : ∃ m, n = m + 1 := ⟨n - 1, by simp at hn; omega⟩
      have hsplit : moreTokens sep tokens (i :: is) trailing =
          [sep] ++ (tokens i ++ moreTokens sep tokens is trailing) := by
        simp [moreTokens]
      rw [hsplit] at hbound ⊢
      simp only [List.length_append, List.length_cons, List.length_nil] at hbound hn
      have hrestItems := ih (fun j hj => hitem j (List.mem_cons_of_mem i hj)) (by omega)
        (n := n) (by omega)
      intro ws hws
      obtain ⟨comma, tail, rfl, hcomma, htail⟩ := List.map_eq_append_iff.1 hws
      obtain ⟨first, more, rfl, hfirst, hmore⟩ := List.map_eq_append_iff.1 htail
      have hnext : Follow (more ++ rest) := follow_moreTokens hfollow hrest hmore
      have hlength : more.length = (moreTokens sep tokens is trailing).length := by
        rw [← hmore, List.length_map]
      obtain ⟨b, hseparator, -⟩ := hsep ((first ++ more) ++ rest) comma hcomma
      obtain ⟨a, hresult, ha⟩ := hitem i List.mem_cons_self (more ++ rest)
        (by rw [List.length_append]; omega) hnext first hfirst
      obtain ⟨as, hresults, has⟩ := hrestItems more hmore
      refine ⟨a :: as, ?_, .cons ha has⟩
      rw [List.append_assoc, result_moreItems_succ, hseparator]
      dsimp only
      rw [List.append_assoc, hresult]
      dsimp only
      rw [hresults]
      rfl

/-- A list is empty where no item can be read. -/
theorem items_nil (hend : result p rest = none) :
    Takes (items p separator n) [] (fun as => as = []) rest := by
  intro ws hws
  rw [List.map_eq_nil_iff.1 hws]
  refine ⟨[], ?_, rfl⟩
  rw [List.nil_append, result_items, hend]

/-- A list takes its first item and those behind separators. -/
theorem items_cons (tokens : ι → List τ) (Follow : List (Lexeme τ) → Prop) (bound : Nat) {i : ι}
    {trailing : Bool}
    (hsep : ∀ rest, Takes separator [sep] (fun _ => True) rest)
    (hitem : ∀ j ∈ i :: is, ∀ rest, (tokens j).length + rest.length ≤ bound →
      Follow rest → Takes p (tokens j) (R j) rest)
    (hfollow : ∀ x more, x.token = sep → Follow (x :: more))
    (hrest : Follow rest) (hstop : result separator rest = none)
    (hend : result p rest = none)
    (hbound : (tokens i ++ moreTokens sep tokens is trailing).length + rest.length ≤ bound)
    (hn : is.length < n) :
    Takes (items p separator n) (tokens i ++ moreTokens sep tokens is trailing)
      (List.Forall₂ R (i :: is)) rest := by
  rw [List.length_append] at hbound
  have hmore : Takes (Reader.moreItems p separator n) (moreTokens sep tokens is trailing)
      (List.Forall₂ R is) rest :=
    moreItems tokens Follow bound hsep (fun j hj => hitem j (List.mem_cons_of_mem i hj)) hfollow
      hrest hstop hend (by omega) hn
  intro ws hws
  obtain ⟨first, more, rfl, hfirst, hmoreTokens⟩ := List.map_eq_append_iff.1 hws
  have hnext : Follow (more ++ rest) := follow_moreTokens hfollow hrest hmoreTokens
  have hlength : more.length = (moreTokens sep tokens is trailing).length := by
    rw [← hmoreTokens, List.length_map]
  obtain ⟨a, hresult, ha⟩ := hitem i List.mem_cons_self (more ++ rest)
    (by rw [List.length_append]; omega) hnext first hfirst
  obtain ⟨as, hresults, has⟩ := hmore more hmoreTokens
  refine ⟨a :: as, ?_, .cons ha has⟩
  rw [List.append_assoc, result_items, hresult]
  dsimp only
  rw [hresults]
  rfl

end Takes

/-! ### Going on

A reader that folds to the left takes its tokens and then goes on with what follows, whether or not
it can. -/

/-- The reader takes the tokens where `rest` follows, and from there it goes on with the steps that
are applied to `a`. -/
def Continues (p : Reader τ α) (step : Reader τ β) (apply : α → β → α) (ts : List τ) (a : α)
    (rest : List (Lexeme τ)) : Prop :=
  ∀ ws : List (Lexeme τ), ws.map Lexeme.token = ts →
    ∃ n, rest.length ≤ n ∧ result p (ws ++ rest) = result (foldMany step apply n a) rest

namespace Continues

variable {p : Reader τ α} {step : Reader τ β} {apply : α → β → α} {ts us : List τ} {a : α} {b : β}
  {rest : List (Lexeme τ)}

/-- A start value is read, and the steps follow. -/
theorem of_takes {n : Nat} (hp : Takes p ts (· = a) rest) (hn : rest.length ≤ n) :
    Continues (p >>= fun first => foldMany step apply n first) step apply ts a rest := by
  intro ws hws
  obtain ⟨_, hresult, rfl⟩ := hp ws hws
  exact ⟨n, hn, by rw [result_bind, hresult, Option.bind_some]⟩

/-- One more step is taken. -/
theorem next (hp : ∀ ws : List (Lexeme τ), ws.map Lexeme.token = us →
      Continues p step apply ts a (ws ++ rest))
    (hstep : Takes step us (· = b) rest) (hne : us ≠ []) :
    Continues p step apply (ts ++ us) (apply a b) rest := by
  intro ws hws
  obtain ⟨first, second, rfl, hfirst, hsecond⟩ := List.map_eq_append_iff.1 hws
  obtain ⟨n, hn, hresult⟩ := hp second hsecond first hfirst
  obtain ⟨_, hmore, rfl⟩ := hstep second hsecond
  have hlength : 0 < second.length := by
    rw [← List.length_map (f := Lexeme.token), hsecond]
    exact List.length_pos_iff.2 hne
  rw [List.length_append] at hn
  obtain ⟨m, rfl⟩ : ∃ m, n = m + 1 := ⟨n - 1, by omega⟩
  refine ⟨m, by omega, ?_⟩
  rw [List.append_assoc, hresult, result_foldMany_of_some hmore]

/-- Where no step can be taken, the tokens are all that is read. -/
theorem takes (hp : Continues p step apply ts a rest) (hstop : result step rest = none) :
    Takes p ts (· = a) rest := by
  intro ws hws
  obtain ⟨n, -, hresult⟩ := hp ws hws
  exact ⟨a, by rw [hresult, result_foldMany_of_none hstop], rfl⟩

end Continues

namespace Refuses

variable {p q : Reader τ α} {ts : List τ} {rest : List (Lexeme τ)}

theorem lexeme {what : List String} {judge : Lexeme τ → Verdict α} {t : τ}
    (hjudge : ∀ x, x.token = t → ∀ a, judge x ≠ .take a) :
    Refuses (Reader.lexeme what judge) (t :: ts) rest := by
  intro ws hws
  obtain ⟨x, more, rfl, hx, -⟩ := List.map_eq_cons_iff.1 hws
  rw [List.cons_append, result_lexeme_cons]
  cases hverdict : judge x with
  | take a => exact absurd hverdict (hjudge x hx a)
  | pass => rfl
  | refuse cause => rfl

theorem cons {x : Lexeme τ} (hp : Refuses p [x.token] rest) : result p (x :: rest) = none :=
  hp [x] rfl

theorem bind {f : α → Reader τ β} (hp : Refuses p ts rest) : Refuses (p >>= f) ts rest := by
  intro ws hws
  rw [result_bind, hp ws hws]
  rfl

theorem map {f : α → β} (hp : Refuses p ts rest) : Refuses (f <$> p) ts rest :=
  Refuses.bind (f := fun a => Pure.pure (f a)) hp

theorem orElse (hp : Refuses p ts rest) (hq : Refuses q ts rest) :
    Refuses (p <|> q) ts rest := by
  intro ws hws
  rw [result_hOrElse, hp ws hws, hq ws hws]
  rfl

end Refuses

end InfraGraph.Reading.Reader
