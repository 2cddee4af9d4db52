import Mathlib.Order.Defs.Unbundled

/-!
# Computations that fail with the state they have reached

Code blocks and definitions are evaluated by computations that change a state and may fail, and what
was done to the state before a failure stays done. Two properties of such a computation are enough
to follow it step by step: what every run does to the state, also one that fails, and what a run
that succeeds has established. Two computations are followed side by side: one simulates the other
if it achieves whatever the other one does.

## Main results

* `Keeps.bind` — a relation that both parts of a sequence keep is kept by the sequence.
* `Yields.bind` — what the first part establishes may be assumed for the second.
* `Keeps.yields` — a property that a kept relation carries over holds after success.
* `Maintains.bind` — a property of states survives sequences of steps that each maintain it.
* `Steady.bind`, `Simulates.bind` — sequences leave the state alone, or simulate, part by part.
* `Raises.bind` — the errors of a sequence are those of its parts.
* `Coincides.bind` — sequences whose parts do the same where a property holds do the same there.
* `Commutes.bind` — what a sequence does commutes with a change of the state if its parts do.
* `Compatible` — most of these properties of sequences at once, for what is put together from many
  parts; `Keeps.compatible` and the others like it say which.
-/

namespace InfraGraph.Effect

variable {ε σ α β : Type}

/-! ## Runs -/

theorem run_get (s : σ) :
    (get : ExceptT ε (StateM σ) σ).run s = (.ok s, s) := rfl

/-- A sequence runs its first part, and the second one from the state it leaves behind. -/
theorem run_bind (w : ExceptT ε (StateM σ) α) (f : α → ExceptT ε (StateM σ) β)
    (s : σ) : (w >>= f).run s =
      match w.run s with
      | (.ok a, t) => (f a).run t
      | (.error e, t) => (.error e, t) := by
  show (ExceptT.bindCont f (w.run s).1).run (w.run s).2 = _
  rcases w.run s with ⟨_ | _, _⟩ <;> rfl

/-- A sequence that succeeds goes through a success of its first part. -/
theorem run_bind_eq_ok {w : ExceptT ε (StateM σ) α}
    {f : α → ExceptT ε (StateM σ) β} {s u : σ} {b : β}
    (h : (w >>= f).run s = (.ok b, u)) :
    ∃ a t, w.run s = (.ok a, t) ∧ (f a).run t = (.ok b, u) := by
  rw [run_bind] at h
  rcases hw : w.run s with ⟨e | a, t⟩
  · rw [hw] at h
    cases h
  · rw [hw] at h
    exact ⟨a, t, rfl, h⟩

/-- A sequence fails in its first part or, after a success of it, in its second. -/
theorem run_bind_eq_error_iff {w : ExceptT ε (StateM σ) α} {f : α → ExceptT ε (StateM σ) β}
    {s u : σ} {e : ε} :
    (w >>= f).run s = (.error e, u) ↔ w.run s = (.error e, u) ∨
      ∃ a t, w.run s = (.ok a, t) ∧ (f a).run t = (.error e, u) := by
  rw [run_bind]
  rcases w.run s with ⟨cause | a, t⟩
  · refine ⟨fun h => ?_, ?_⟩
    · cases h
      exact .inl rfl
    · rintro (h | ⟨b, t', h, -⟩)
      · cases h
        rfl
      · cases h
  · refine ⟨fun h => .inr ⟨a, t, rfl, h⟩, ?_⟩
    rintro (h | ⟨b, t', h, hrest⟩)
    · cases h
    · cases h
      exact hrest

/-- What succeeds has a result. -/
theorem exists_run_of_isOk {w : ExceptT ε (StateM σ) α} {s : σ}
    (h : (w.run s).1.isOk = true) : ∃ a t, w.run s = (.ok a, t) := by
  rcases hrun : w.run s with ⟨e | a, t⟩
  · rw [hrun] at h
    cases h
  · exact ⟨a, t, rfl⟩

theorem exists_run_of_toOption {w : ExceptT ε (StateM σ) α} {s : σ} {a : α}
    (h : (w.run s).1.toOption = some a) : ∃ t, w.run s = (.ok a, t) := by
  rcases hrun : w.run s with ⟨e | b, t⟩
  · rw [hrun] at h
    cases h
  · rw [hrun] at h
    cases h
    exact ⟨t, rfl⟩

/-! ## What every run does -/

/-- Every run, whether it succeeds or fails, relates the states before and after
it. -/
def Keeps (R : σ → σ → Prop) (w : ExceptT ε (StateM σ) α) : Prop :=
  ∀ s, R s (w.run s).2

namespace Keeps

variable {R : σ → σ → Prop}

/-- A step may look at the state before it decides what to do. -/
theorem get_bind {f : σ → ExceptT ε (StateM σ) β}
    (hf : ∀ s, R s ((f s).run s).2) :
    Keeps R (MonadState.get >>= f) := by
  intro s
  rw [run_bind, run_get]
  exact hf s

variable [IsPreorder σ R]

theorem pure (a : α) : Keeps R (Pure.pure a : ExceptT ε (StateM σ) α) :=
  fun s => refl_of R s

theorem throw (e : ε) : Keeps R (MonadExcept.throw e : ExceptT ε (StateM σ) α) :=
  fun s => refl_of R s

theorem get : Keeps R (MonadState.get : ExceptT ε (StateM σ) σ) :=
  fun s => refl_of R s

theorem bind {w : ExceptT ε (StateM σ) α} {f : α → ExceptT ε (StateM σ) β}
    (hw : Keeps R w) (hf : ∀ a, Keeps R (f a)) : Keeps R (w >>= f) := by
  intro s
  have hfirst := hw s
  rw [run_bind]
  rcases hrun : w.run s with ⟨e | a, t⟩
  · rw [hrun] at hfirst
    exact hfirst
  · rw [hrun] at hfirst
    exact trans_of R hfirst (hf a t)

end Keeps

theorem Keeps.of_run {R : σ → σ → Prop} {w : ExceptT ε (StateM σ) α} (hw : Keeps R w) {s t : σ}
    {r : Except ε α} (hrun : w.run s = (r, t)) : R s t := by
  have hrel := hw s
  rw [hrun] at hrel
  exact hrel

/-! ## What a run that succeeds has established -/

/-- Started where `P` holds, the computation ends where `Q` holds if it
succeeds. -/
def Yields (P : σ → Prop) (w : ExceptT ε (StateM σ) α) (Q : α → σ → Prop) :
    Prop :=
  ∀ s, P s → ∀ a t, w.run s = (.ok a, t) → Q a t

namespace Yields

variable {P : σ → Prop} {Q : α → σ → Prop}

theorem pure {a : α} (h : ∀ s, P s → Q a s) :
    Yields P (Pure.pure a : ExceptT ε (StateM σ) α) Q := by
  intro s hs b t hrun
  cases hrun
  exact h s hs

theorem throw (e : ε) :
    Yields P (MonadExcept.throw e : ExceptT ε (StateM σ) α) Q := by
  intro s _ b t hrun
  cases hrun

theorem modify {f : σ → σ} {Q : PUnit → σ → Prop} (h : ∀ s, P s → Q ⟨⟩ (f s)) :
    Yields P (modify f : ExceptT ε (StateM σ) PUnit) Q := by
  intro s hs b t hrun
  cases hrun
  exact h s hs

theorem get : Yields P (MonadState.get : ExceptT ε (StateM σ) σ)
    fun a s => a = s ∧ P s := by
  intro s hs b t hrun
  cases hrun
  exact ⟨rfl, hs⟩

theorem bind {w : ExceptT ε (StateM σ) α} {f : α → ExceptT ε (StateM σ) β}
    {T : β → σ → Prop} (hw : Yields P w Q) (hf : ∀ a, Yields (Q a) (f a) T) :
    Yields P (w >>= f) T := by
  intro s hs b u hrun
  obtain ⟨a, t, hfirst, hrest⟩ := run_bind_eq_ok hrun
  exact hf a t (hw s hs a t hfirst) b u hrest

end Yields

/-- What a kept relation carries over holds after success. -/
theorem Keeps.yields {R : σ → σ → Prop} {w : ExceptT ε (StateM σ) α}
    (hw : Keeps R w) {P : σ → Prop} (hP : ∀ s t, R s t → P s → P t) :
    Yields P w fun _ => P := by
  intro s hs a t hrun
  have hrel := hw s
  rw [hrun] at hrel
  exact hP s t hrel hs

/-! ## What holds again after success -/

/-- Started where `P` holds, a run that succeeds ends where it holds again, with a result of which
`Q` holds. -/
def Maintains (P : σ → Prop) (w : ExceptT ε (StateM σ) α) (Q : α → Prop) : Prop :=
  Yields P w fun a s => Q a ∧ P s

namespace Maintains

variable {P : σ → Prop} {Q : α → Prop}

theorem pure {a : α} (ha : Q a) : Maintains P (Pure.pure a : ExceptT ε (StateM σ) α) Q :=
  Yields.pure fun _ hs => ⟨ha, hs⟩

theorem throw (e : ε) : Maintains P (MonadExcept.throw e : ExceptT ε (StateM σ) α) Q :=
  Yields.throw e

theorem modify {f : σ → σ} (h : ∀ s, P s → P (f s)) :
    Maintains P (modify f : ExceptT ε (StateM σ) PUnit) fun _ => True :=
  Yields.modify fun s hs => ⟨trivial, h s hs⟩

/-- What is looked at has the property. -/
theorem get : Maintains P (MonadState.get : ExceptT ε (StateM σ) σ) P := by
  intro s hs a t hrun
  cases hrun
  exact ⟨hs, hs⟩

theorem bind {w : ExceptT ε (StateM σ) α} {f : α → ExceptT ε (StateM σ) β} {T : β → Prop}
    (hw : Maintains P w Q) (hf : ∀ a, Q a → Maintains P (f a) T) : Maintains P (w >>= f) T :=
  Yields.bind hw fun a s hs => hf a hs.1 s hs.2

end Maintains

/-! ## What a run that fails may fail with -/

/-- Every error of the computation is of this sort. -/
def Raises (w : ExceptT ε (StateM σ) α) (E : ε → Prop) : Prop :=
  ∀ s e t, w.run s = (.error e, t) → E e

namespace Raises

variable {E : ε → Prop}

theorem pure (a : α) : Raises (Pure.pure a : ExceptT ε (StateM σ) α) E := by
  intro s e t hrun
  cases hrun

theorem bind {w : ExceptT ε (StateM σ) α} {f : α → ExceptT ε (StateM σ) β}
    (hw : Raises w E) (hf : ∀ a, Raises (f a) E) : Raises (w >>= f) E := by
  intro s e u hrun
  rcases run_bind_eq_error_iff.1 hrun with hfirst | ⟨a, t, -, hrest⟩
  · exact hw s e u hfirst
  · exact hf a t e u hrest

end Raises

/-! ## Computations that leave the state alone -/

/-- The computation neither looks at the state nor changes it. -/
def Steady (w : ExceptT ε (StateM σ) α) : Prop :=
  ∃ r : Except ε α, ∀ s, w.run s = (r, s)

namespace Steady

theorem pure (a : α) : Steady (Pure.pure a : ExceptT ε (StateM σ) α) :=
  ⟨.ok a, fun _ => rfl⟩

theorem throw (e : ε) : Steady (MonadExcept.throw e : ExceptT ε (StateM σ) α) :=
  ⟨.error e, fun _ => rfl⟩

theorem bind {w : ExceptT ε (StateM σ) α} {f : α → ExceptT ε (StateM σ) β}
    (hw : Steady w) (hf : ∀ a, Steady (f a)) : Steady (w >>= f) := by
  obtain ⟨r, hr⟩ := hw
  cases r with
  | error e => exact ⟨.error e, fun s => by rw [run_bind, hr]⟩
  | ok a =>
      obtain ⟨q, hq⟩ := hf a
      refine ⟨q, fun s => ?_⟩
      rw [run_bind, hr]
      exact hq s

end Steady

/-! ## Two runs side by side -/

/-- The first computation achieves whatever the second one does: where the second
one succeeds, the first one, started in a related state, succeeds with the same
result. -/
def Simulates (R : σ → σ → Prop) (v w : ExceptT ε (StateM σ) α)
    (S : α → σ → σ → Prop) : Prop :=
  ∀ t s, R t s → ∀ a s', w.run s = (.ok a, s') →
    ∃ t', v.run t = (.ok a, t') ∧ S a t' s'

namespace Simulates

variable {R : σ → σ → Prop} {S : α → σ → σ → Prop} {T : β → σ → σ → Prop}
  {v w : ExceptT ε (StateM σ) α} {f g : α → ExceptT ε (StateM σ) β}

theorem bind (hfirst : Simulates R v w S) (hnext : ∀ a, Simulates (S a) (f a) (g a) T) :
    Simulates R (v >>= f) (w >>= g) T := by
  intro t s hts b s'' hrun
  obtain ⟨a, s', hw, hg⟩ := run_bind_eq_ok hrun
  obtain ⟨t', hv, hst⟩ := hfirst t s hts a s' hw
  obtain ⟨t'', hf, hT⟩ := hnext a t' s' hst b s'' hg
  refine ⟨t'', ?_, hT⟩
  rw [run_bind, hv]
  exact hf

/-- From the same state, the same first part leads to the same state. -/
theorem same (hnext : ∀ a, Simulates Eq (f a) (g a) T) :
    Simulates Eq (w >>= f) (w >>= g) T := by
  refine bind (S := fun _ => Eq) ?_ hnext
  rintro t s rfl a s' hrun
  exact ⟨s', hrun, rfl⟩

theorem pure {a : α} (h : ∀ t s, R t s → S a t s) :
    Simulates R (Pure.pure a : ExceptT ε (StateM σ) α) (Pure.pure a) S := by
  intro t s hts b s' hrun
  cases hrun
  exact ⟨t, rfl, h t s hts⟩

theorem modify {f : σ → σ} {S : PUnit → σ → σ → Prop} (h : ∀ t s, R t s → S ⟨⟩ (f t) (f s)) :
    Simulates R (modify f : ExceptT ε (StateM σ) PUnit) (modify f) S := by
  intro t s hts b s' hrun
  cases hrun
  exact ⟨f t, rfl, h t s hts⟩

theorem steady (hw : Steady w) : Simulates R w w fun _ => R := by
  obtain ⟨r, hr⟩ := hw
  intro t s hts a s' hrun
  rw [hr] at hrun
  cases hrun
  exact ⟨t, hr t, hts⟩

/-- Both may look at their states before they decide what to do. -/
theorem get_bind {f g : σ → ExceptT ε (StateM σ) β}
    (h : ∀ t s, R t s → Simulates (fun t' s' => t' = t ∧ s' = s) (f t) (g s) T) :
    Simulates R (MonadState.get >>= f) (MonadState.get >>= g) T := by
  intro t s hts b s' hrun
  rw [run_bind, run_get] at hrun ⊢
  exact h t s hts t s ⟨rfl, rfl⟩ b s' hrun

end Simulates

/-! ## Two computations that do the same -/

/-- Started where `P` holds, the two computations do the same, whether they succeed or fail, and end
where it holds again. -/
def Coincides (P : σ → Prop) (v w : ExceptT ε (StateM σ) α) : Prop :=
  ∀ s, P s → v.run s = w.run s ∧ P (v.run s).2

namespace Coincides

variable {P : σ → Prop} {v w : ExceptT ε (StateM σ) α} {f g : α → ExceptT ε (StateM σ) β}

theorem pure (a : α) : Coincides P (Pure.pure a : ExceptT ε (StateM σ) α) (Pure.pure a) :=
  fun _ hs => ⟨rfl, hs⟩

theorem throw (e : ε) :
    Coincides P (MonadExcept.throw e : ExceptT ε (StateM σ) α) (MonadExcept.throw e) :=
  fun _ hs => ⟨rfl, hs⟩

theorem bind (hfirst : Coincides P v w) (hnext : ∀ a, Coincides P (f a) (g a)) :
    Coincides P (v >>= f) (w >>= g) := by
  intro s hs
  obtain ⟨hsame, hP⟩ := hfirst s hs
  rw [run_bind, run_bind, ← hsame]
  rcases hrun : v.run s with ⟨e | a, t⟩
  · rw [hrun] at hP
    exact ⟨rfl, hP⟩
  · rw [hrun] at hP
    exact hnext a t hP

/-- What the first computation achieves, it achieves where the property holds again. -/
theorem holds (h : Coincides P v w) {s t : σ} (hs : P s) {r : Except ε α}
    (hrun : v.run s = (r, t)) : P t := by
  have hP := (h s hs).2
  rw [hrun] at hP
  exact hP

end Coincides

/-! ## A change that does not show -/

/-- If the state is changed beforehand, the computation gives the same result, or the same error,
and leaves the state that it leaves otherwise, changed in the same way. -/
def Commutes (φ : σ → σ) (w : ExceptT ε (StateM σ) α) : Prop :=
  ∀ s, w.run (φ s) = ((w.run s).1, φ (w.run s).2)

namespace Commutes

variable {φ : σ → σ}

theorem pure (a : α) : Commutes φ (Pure.pure a : ExceptT ε (StateM σ) α) := fun _ => rfl

theorem throw (e : ε) : Commutes φ (MonadExcept.throw e : ExceptT ε (StateM σ) α) := fun _ => rfl

theorem modify {f : σ → σ} (h : ∀ s, f (φ s) = φ (f s)) :
    Commutes φ (modify f : ExceptT ε (StateM σ) PUnit) :=
  fun s => Prod.ext rfl (h s)

theorem bind {w : ExceptT ε (StateM σ) α} {f : α → ExceptT ε (StateM σ) β}
    (hw : Commutes φ w) (hf : ∀ a, Commutes φ (f a)) : Commutes φ (w >>= f) := by
  intro s
  rw [run_bind, run_bind, hw s]
  rcases w.run s with ⟨e | a, t⟩
  · rfl
  · exact hf a t

/-- What is done with the state that is looked at must not depend on the change. -/
theorem get_bind {f : σ → ExceptT ε (StateM σ) β} (h : ∀ s, f (φ s) = f s)
    (hf : ∀ s, Commutes φ (f s)) : Commutes φ (MonadState.get >>= f) := by
  intro s
  rw [run_bind, run_bind, run_get, run_get]
  dsimp only
  rw [h]
  exact hf s s

end Commutes

/-! ## What is put together from many parts -/

/-- A relation between computations that holds of equal results, of equal errors and of sequences
whose parts are related. A property of one computation is such a relation, too; it does not look at
the other one. -/
structure Compatible (Q : (α : Type) → ExceptT ε (StateM σ) α → ExceptT ε (StateM σ) α → Prop) :
    Prop where
  pure : ∀ {α : Type} (a : α), Q α (Pure.pure a) (Pure.pure a)
  throw : ∀ {α : Type} (e : ε), Q α (MonadExcept.throw e) (MonadExcept.throw e)
  bind : ∀ {α β : Type} {v w : ExceptT ε (StateM σ) α} {f g : α → ExceptT ε (StateM σ) β},
    Q α v w → (∀ a, Q β (f a) (g a)) → Q β (v >>= f) (w >>= g)

/-- Relations that are preorders are kept by sequences of steps that keep them. -/
theorem Keeps.compatible (R : σ → σ → Prop) [IsPreorder σ R] :
    Compatible (ε := ε) fun _ w _ => Keeps R w :=
  ⟨.pure, .throw, .bind⟩

/-- Sequences of steady steps are steady. -/
theorem Steady.compatible : Compatible (ε := ε) (σ := σ) fun _ w _ => Steady w :=
  ⟨.pure, .throw, .bind⟩

/-- Steps that do the same where a property holds do so in sequence. -/
theorem Coincides.compatible (P : σ → Prop) : Compatible (ε := ε) fun _ => Coincides P :=
  ⟨.pure, .throw, .bind⟩

/-- Steps that commute with a change of the state do so in sequence. -/
theorem Commutes.compatible (φ : σ → σ) : Compatible (ε := ε) fun _ w _ => Commutes φ w :=
  ⟨.pure, .throw, .bind⟩

/-- Equal computations do the same wherever they stand. -/
theorem compatible_eq : Compatible (ε := ε) (σ := σ) fun _ v w => v = w where
  pure _ := rfl
  throw _ := rfl
  bind hfirst hnext := by
    rw [hfirst]
    exact bind_congr hnext

end InfraGraph.Effect
