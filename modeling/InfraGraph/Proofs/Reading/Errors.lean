import InfraGraph.Proofs.Reading.Pieces
import InfraGraph.Proofs.Text.Parts
import InfraGraph.Reading.Cut
import InfraGraph.Reading.Reader

/-!
# Where errors point

An error points at a range of bytes, and the range is of use only if it can be cut out of the text:
both ends must lie between characters. The ranges of faults and of tokens do, since they are widths
of first parts of the text, and they are never turned around. A reader reports a token that it was
given or the end of the text. Its error therefore points at a token, or from the end of the text
back to where the last token ends; only there can a range be turned around.

## Main results

* `within_lexemesFrom`, `within_faultsFrom` — tokens and faults have ranges of the text.
* `Honest` and its lemmas — a reader fails at a lexeme that it was given or at the end.
* `points_of_readAll` — where the error of a whole text points.
-/

namespace InfraGraph.Reading

open InfraGraph.Text (Boundary Span width)

variable {τ α β : Type}

/-! ## Tokens and faults -/

/-- Every token of a text covers a part of it. -/
theorem within_lexemesFrom (before : List Char) (ps : List (Piece τ)) :
    ∀ x ∈ lexemesFrom (width before) ps, x.span.Within (before ++ textOf ps) := by
  induction ps generalizing before with
  | nil => exact fun x hx => absurd hx List.not_mem_nil
  | cons p ps ih =>
      have hmore := ih (before ++ p.text)
      rw [Text.width_append, List.append_assoc, ← textOf_cons] at hmore
      rw [lexemesFrom]
      cases p.kind with
      | gap => exact hmore
      | fault cause shown => exact hmore
      | token t =>
          refine List.forall_mem_cons.2 ⟨?_, hmore⟩
          rw [textOf_cons]
          exact Text.within_middle before p.text (textOf ps)

/-- Where a piece is a fault, it shows the first part of its text. -/
def Piece.Shows (p : Piece τ) : Prop :=
  ∀ cause shown, p.kind = .fault cause shown → shown <+: p.text

/-- Every fault of a text points at a part of it. -/
theorem within_faultsFrom (before : List Char) {ps : List (Piece τ)}
    (hps : ∀ p ∈ ps, p.Shows) :
    ∀ e ∈ faultsFrom (width before) ps, e.span.Within (before ++ textOf ps) := by
  induction ps generalizing before with
  | nil => exact fun e he => absurd he List.not_mem_nil
  | cons p ps ih =>
      have hmore := ih (before ++ p.text) fun q hq => hps q (List.mem_cons_of_mem p hq)
      rw [Text.width_append, List.append_assoc, ← textOf_cons] at hmore
      rw [faultsFrom]
      cases hkind : p.kind with
      | gap => exact hmore
      | token t => exact hmore
      | fault cause shown =>
          refine List.forall_mem_cons.2 ⟨?_, hmore⟩
          obtain ⟨hidden, htext⟩ := hps p List.mem_cons_self cause shown hkind
          rw [textOf_cons, ← htext, List.append_assoc]
          exact Text.within_middle before shown (hidden ++ textOf ps)

/-- The lexemes of a text cover parts of it. -/
theorem within_of_lexemes_ok {cut : Cut τ} (hcut : cut.Faithful) {text : List Char}
    {xs : List (Lexeme τ)} (h : lexemes cut text = .ok xs) :
    ∀ x ∈ xs, x.span.Within text := by
  have hwithin := within_lexemesFrom [] (pieces cut text)
  rw [List.nil_append, textOf, flatMap_pieces hcut] at hwithin
  unfold lexemes at h
  dsimp only at h
  split at h
  · obtain rfl := Except.ok.inj h
    exact hwithin
  · cases h

/-- A text is not cut into lexemes only if it has faults, which point at parts of it. -/
theorem within_of_lexemes_error {cut : Cut τ} (hcut : cut.Faithful)
    (hshows : ∀ c cs, (cut c cs).1.Shows) {text : List Char} {errors : List SyntaxError}
    (h : lexemes cut text = .error errors) :
    errors ≠ [] ∧ ∀ e ∈ errors, e.span.Within text := by
  have hpieces : ∀ p ∈ pieces cut text, p.Shows := by
    intro p hp
    obtain ⟨c, more, rfl⟩ := exists_cut_of_mem_piecesUpTo hp
    exact hshows c more
  have hwithin := within_faultsFrom [] hpieces
  rw [List.nil_append, textOf, flatMap_pieces hcut] at hwithin
  unfold lexemes at h
  dsimp only at h
  split at h
  · cases h
  · rename_i hne
    obtain rfl := Except.error.inj h
    exact ⟨hne, hwithin⟩

/-! ## The cuts that both languages share -/

/-- A run of characters is no fault. -/
theorem shows_cutWhile (inClass : Char → Bool) {kind : List Char → PieceKind τ}
    (hkind : ∀ text cause shown, kind text ≠ .fault cause shown) (c : Char) (cs : List Char) :
    (cutWhile inClass kind c cs).1.Shows :=
  fun cause shown h => absurd h (hkind _ cause shown)

/-- A stray character shows itself. -/
theorem shows_cutStray (c : Char) (cs : List Char) :
    (cutStray c cs : Piece τ × List Char).1.Shows := by
  intro cause shown h
  cases h
  exact List.prefix_rfl

/-- A faulty string shows the first part of its text. -/
theorem shows_cutQuoted (string : String → τ) (c : Char) (cs : List Char) :
    (cutQuoted string c cs).1.Shows := by
  intro cause shown h
  unfold cutQuoted at h ⊢
  dsimp only at h ⊢
  split at h
  · cases h
  · rename_i hopen
    rw [if_neg hopen]
    cases h
    exact List.prefix_rfl

/-- A number that is too large shows the first part of its text. -/
theorem shows_cutNumeral (rule : NumberRule τ) (sign cs : List Char) :
    (cutNumeral rule sign cs).1.Shows := by
  intro cause shown h
  rw [text_cutNumeral]
  unfold cutNumeral at h
  dsimp only at h
  split at h
  · cases h
  · cases h
    exact List.prefix_rfl

/-! ## Honest failures -/

/-- A failure is at one of the lexemes given, or at their end, where nothing can be refused. -/
structure Failure.At (xs : List (Lexeme τ)) (f : Failure τ) : Prop where
  found : ∀ x, f.found = some x → x ∈ xs
  refused : ∀ cause, f.complaint = .refused cause → f.found ≠ none ∧ cause ≠ .unexpectedEnd

theorem Failure.at_end (xs : List (Lexeme τ)) (what : List String) :
    Failure.At xs ⟨none, .expected what⟩ where
  found x hx := by cases hx
  refused cause hc := by cases hc

/-- A failure among some lexemes is one among more of them. -/
theorem Failure.At.mono {xs ys : List (Lexeme τ)} {f : Failure τ} (h : f.At ys)
    (hsub : ys.Sublist xs) : f.At xs where
  found x hx := hsub.subset (h.found x hx)
  refused := h.refused

theorem Failure.At.merge {xs : List (Lexeme τ)} {f g : Failure τ} (hf : f.At xs) (hg : g.At xs) :
    (f.merge g).At xs := by
  unfold Failure.merge
  by_cases hfg : f.before g
  · rw [if_pos hfg]
    exact hg
  by_cases hgf : g.before f
  · rw [if_neg hfg, if_pos hgf]
    exact hf
  rw [if_neg hfg, if_neg hgf]
  refine ⟨hf.found, fun cause hcause => ?_⟩
  -- Neither failure lies before the other one, so both are at a lexeme or both at the end.
  have hsame : g.found ≠ none → f.found ≠ none := by
    intro hsome hnone
    cases hgx : g.found with
    | none => exact hsome hgx
    | some x => exact hgf (by simp [Failure.before, hgx, hnone])
  cases hc : f.complaint with
  | refused cause' =>
      rw [hc, Complaint.join] at hcause
      exact hf.refused cause (hc.trans hcause)
  | expected what =>
      cases hd : g.complaint with
      | expected what' => simp [hc, hd, Complaint.join] at hcause
      | refused cause' =>
          rw [hc, hd, Complaint.join] at hcause
          have hrefused := hg.refused cause (hd.trans hcause)
          exact ⟨hsame hrefused.1, hrefused.2⟩

/-- The furthest of two failures is one of them. -/
theorem Failure.at_of_furthest {xs : List (Lexeme τ)} {f g : Option (Failure τ)}
    (hf : ∀ k, f = some k → k.At xs) (hg : ∀ k, g = some k → k.At xs) :
    ∀ k, Failure.furthest f g = some k → k.At xs := by
  cases f with
  | none => exact hg
  | some f =>
      cases g with
      | none => exact hf
      | some g =>
          intro k hk
          obtain rfl := Option.some.inj hk
          exact (hf f rfl).merge (hg g rfl)

namespace Reader

/-- A reader leaves the last of the lexemes given over and fails among them or at their end. -/
structure Honest (p : Reader τ α) : Prop where
  suffix : ∀ {xs : List (Lexeme τ)} {r : α × List (Lexeme τ)}, result p xs = some r → r.2 <:+ xs
  failure : ∀ {xs : List (Lexeme τ)} {f : Failure τ}, (p xs).failure = some f → f.At xs

namespace Honest

protected theorem pure (a : α) : Honest (pure a : Reader τ α) where
  suffix h := by
    obtain rfl := Option.some.inj h
    exact List.suffix_rfl
  failure h := by cases h

protected theorem never : Honest (never : Reader τ α) where
  suffix h := by cases h
  failure h := by cases h

protected theorem bind {p : Reader τ α} {f : α → Reader τ β} (hp : Honest p)
    (hf : ∀ a, Honest (f a)) : Honest (p >>= f) where
  suffix {xs r} h := by
    rw [result_bind] at h
    obtain ⟨s, hs, hr⟩ := Option.bind_eq_some_iff.1 h
    exact ((hf s.1).suffix hr).trans (hp.suffix hs)
  failure {xs k} h := by
    change (Reader.bind p f xs).failure = some k at h
    have hfailure : ∀ {k}, (p xs).failure = some k → k.At xs := hp.failure
    have hsuffix : ∀ {r}, (p xs).result = some r → r.2 <:+ xs := hp.suffix
    unfold Reader.bind at h
    rcases hxs : p xs with ⟨_ | ⟨a, rest⟩, failure⟩
    · rw [hxs] at h hfailure
      exact hfailure h
    · rw [hxs] at h hfailure hsuffix
      refine Failure.at_of_furthest (fun k hk => hfailure hk) (fun k hk => ?_) k h
      exact ((hf a).failure hk).mono (hsuffix rfl).sublist

protected theorem map (g : α → β) {p : Reader τ α} (hp : Honest p) : Honest (g <$> p) :=
  hp.bind fun a => .pure (g a)

protected theorem orElse {p q : Reader τ α} (hp : Honest p) (hq : Honest q) :
    Honest (p <|> q) where
  suffix {xs r} h := by
    change result (p.orElse fun _ => q) xs = some r at h
    rw [result_orElse, Option.or_eq_some_iff] at h
    rcases h with h | ⟨-, h⟩
    · exact hp.suffix h
    · exact hq.suffix h
  failure {xs k} h := by
    change (Reader.orElse p (fun _ => q) xs).failure = some k at h
    have hfailure : ∀ {k}, (p xs).failure = some k → k.At xs := hp.failure
    unfold Reader.orElse at h
    rcases hxs : p xs with ⟨_ | r, failure⟩
    · rw [hxs] at h hfailure
      exact Failure.at_of_furthest (fun k hk => hfailure hk) (fun k hk => hq.failure hk) k h
    · rw [hxs] at h hfailure
      exact hfailure h

protected theorem optional {p : Reader τ α} (hp : Honest p) : Honest (optional p) where
  suffix {xs r} h := by
    rw [result_optional] at h
    split at h
    · rename_i a rest hs
      obtain rfl := Option.some.inj h
      exact hp.suffix hs
    · obtain rfl := Option.some.inj h
      exact List.suffix_rfl
  failure {xs k} h := by
    have hfailure : ∀ {k}, (p xs).failure = some k → k.At xs := hp.failure
    unfold Reader.optional at h
    rcases hxs : p xs with ⟨_ | ⟨a, rest⟩, failure⟩
    · rw [hxs] at h hfailure
      exact hfailure h
    · rw [hxs] at h hfailure
      exact hfailure h

/-- A rule for single lexemes may refuse one, but not because the text ends. -/
protected theorem lexeme (what : List String) {judge : Lexeme τ → Verdict α}
    (hjudge : ∀ x, judge x ≠ .refuse .unexpectedEnd) : Honest (lexeme what judge) where
  suffix {xs r} h := by
    cases xs with
    | nil => cases h
    | cons x rest =>
        unfold result lexeme at h
        cases hx : judge x with
        | take a =>
            simp only [hx, Option.some.injEq] at h
            subst h
            exact List.suffix_cons x rest
        | pass => simp [hx] at h
        | refuse cause => simp [hx] at h
  failure {xs k} h := by
    cases xs with
    | nil =>
        obtain rfl := Option.some.inj h
        exact Failure.at_end [] what
    | cons x rest =>
        unfold lexeme at h
        cases hx : judge x with
        | take a => simp [hx] at h
        | pass =>
            simp only [hx, Option.some.injEq] at h
            subst h
            exact ⟨by simp, fun cause hc => by cases hc⟩
        | refuse cause =>
            simp only [hx, Option.some.injEq] at h
            subst h
            refine ⟨by simp, fun cause' hc => ⟨by simp, ?_⟩⟩
            obtain rfl := Complaint.refused.inj hc
            intro hend
            exact hjudge x (hend ▸ hx)

protected theorem ended : Honest (ended : Reader τ Unit) where
  suffix {xs r} h := by
    cases xs with
    | nil =>
        obtain rfl := Option.some.inj h
        exact List.suffix_rfl
    | cons x rest => cases h
  failure {xs k} h := by
    cases xs with
    | nil => cases h
    | cons x rest =>
        obtain rfl := Option.some.inj h
        exact ⟨by simp, fun cause hc => by cases hc⟩

/-! ### Repetition -/

protected theorem many {p : Reader τ α} (hp : Honest p) (n : Nat) : Honest (many p n) := by
  induction n with
  | zero => exact .pure []
  | succ n ih =>
      refine hp.optional.bind fun a => ?_
      cases a with
      | none => exact .pure []
      | some a => exact ih.bind fun as => .pure (a :: as)

protected theorem moreItems {item : Reader τ α} {separator : Reader τ β} (hitem : Honest item)
    (hseparator : Honest separator) (n : Nat) : Honest (moreItems item separator n) := by
  induction n with
  | zero => exact .pure []
  | succ n ih =>
      refine hseparator.optional.bind fun b => ?_
      cases b with
      | none => exact .pure []
      | some b =>
          refine hitem.optional.bind fun a => ?_
          cases a with
          | none => exact .pure []
          | some a => exact ih.bind fun as => .pure (a :: as)

protected theorem items {item : Reader τ α} {separator : Reader τ β} (hitem : Honest item)
    (hseparator : Honest separator) (n : Nat) : Honest (items item separator n) := by
  refine hitem.optional.bind fun a => ?_
  cases a with
  | none => exact .pure []
  | some a => exact (hitem.moreItems hseparator n).bind fun as => .pure (a :: as)

end Honest

end Reader

/-! ## Whole texts -/

/-- The last token of a text ends before the text does: there is something behind it. -/
def EndsEarly (tokens : Except (List SyntaxError) (List (Lexeme τ))) (text : List Char) : Prop :=
  ∃ xs x, tokens = .ok xs ∧ xs.getLast? = some x ∧ x.span.stop < width text

/-- The range of an error lies in the text, with both ends between characters. It is turned around
exactly where the text ends too early and there is something behind its last token. -/
structure SyntaxError.Points (tokens : Except (List SyntaxError) (List (Lexeme τ)))
    (text : List Char) (e : SyntaxError) : Prop where
  start : Boundary text e.span.start
  stop : Boundary text e.span.stop
  inside : e.span.start ≤ width text ∧ e.span.stop ≤ width text
  turned : e.span.stop < e.span.start ↔ e.cause = .unexpectedEnd ∧ EndsEarly tokens text

theorem SyntaxError.points_of_within {tokens : Except (List SyntaxError) (List (Lexeme τ))}
    {text : List Char} {e : SyntaxError} (h : e.span.Within text)
    (hcause : e.cause = .unexpectedEnd → ¬ EndsEarly tokens text) : e.Points tokens text where
  start := h.start
  stop := h.stop
  inside := ⟨h.start.le_width, h.stop.le_width⟩
  turned := by
    refine ⟨fun hturned => absurd h.ordered (by omega), fun hend => ?_⟩
    exact absurd hend.2 (hcause hend.1)

/-- The end of a text has a range that runs back to the end of its last token. -/
theorem endSpan_cases (text : List Char) (xs : List (Lexeme τ)) :
    (xs.getLast? = none ∧ Reader.endSpan text xs = ⟨width text, width text⟩) ∨
      ∃ x, xs.getLast? = some x ∧ Reader.endSpan text xs = ⟨width text, x.span.stop⟩ := by
  cases h : xs.getLast? with
  | none => exact .inl ⟨rfl, by simp [Reader.endSpan, h]⟩
  | some x => exact .inr ⟨x, rfl, by simp [Reader.endSpan, h]⟩

private theorem points_of_endSpan {text : List Char} {xs : List (Lexeme τ)}
    (hxs : ∀ x ∈ xs, x.span.Within text) (expected : List String) :
    (SyntaxError.mk (Reader.endSpan text xs) .unexpectedEnd expected).Points (.ok xs) text := by
  rcases endSpan_cases text xs with ⟨hlast, hspan⟩ | ⟨x, hlast, hspan⟩
  · rw [hspan]
    refine SyntaxError.points_of_within
      ⟨Text.boundary_width text, Text.boundary_width text, Nat.le_refl _⟩ fun _ => ?_
    rintro ⟨ys, y, hys, hy, -⟩
    obtain rfl := Except.ok.inj hys
    rw [hlast] at hy
    cases hy
  · rw [hspan]
    have hstop := (hxs x (List.mem_of_getLast? hlast)).stop
    refine ⟨Text.boundary_width text, hstop, ⟨Nat.le_refl _, hstop.le_width⟩, ?_⟩
    constructor
    · exact fun hturned => ⟨rfl, xs, x, rfl, hlast, hturned⟩
    · rintro ⟨-, ys, y, hys, hy, hearly⟩
      obtain rfl := Except.ok.inj hys
      obtain rfl := Option.some.inj (hlast.symm.trans hy)
      exact hearly

private theorem points_of_errorOf (describe : τ → String) {text : List Char} {xs : List (Lexeme τ)}
    (hxs : ∀ x ∈ xs, x.span.Within text) {f : Failure τ} (hf : f.At xs) :
    (Reader.errorOf describe text xs f).Points (.ok xs) text := by
  obtain ⟨found, complaint⟩ := f
  cases found with
  | none =>
      cases complaint with
      | refused cause => exact absurd rfl (hf.refused cause rfl).1
      | expected what => exact points_of_endSpan hxs what
  | some x =>
      have hwithin := hxs x (hf.found x rfl)
      cases complaint with
      | refused cause =>
          exact SyntaxError.points_of_within hwithin fun h => absurd h (hf.refused cause rfl).2
      | expected what => exact SyntaxError.points_of_within hwithin fun h => by cases h

/-- A text that an honest reader does not read has an error, and it points into the text. -/
theorem points_of_readAll {p : Reader τ α} (hp : p.Honest) {describe : τ → String}
    {text : List Char} {xs : List (Lexeme τ)} (hxs : ∀ x ∈ xs, x.span.Within text)
    {errors : List SyntaxError} (h : Reader.readAll p describe text xs = .error errors) :
    errors ≠ [] ∧ ∀ e ∈ errors, e.Points (.ok xs) text := by
  have hall : Reader.Honest (do let a ← p; Reader.ended; pure a : Reader τ α) :=
    hp.bind fun a => Reader.Honest.ended.bind fun _ => .pure a
  unfold Reader.readAll at h
  dsimp only at h
  split at h
  · cases h
  · obtain rfl := Except.error.inj h
    refine ⟨by simp, fun e he => ?_⟩
    obtain rfl := List.mem_singleton.1 he
    refine points_of_errorOf describe hxs ?_
    cases hfailure : ((do let a ← p; Reader.ended; pure a : Reader τ α) xs).failure with
    | none => exact Failure.at_end xs []
    | some f => exact hall.failure hfailure

/-- The errors of a text are those of its tokens or, where it has tokens, those of a reader. -/
theorem points_of_read {tokens : Except (List SyntaxError) (List (Lexeme τ))} {text : List Char}
    (hfaults : ∀ errors, tokens = .error errors →
      errors ≠ [] ∧ ∀ e ∈ errors, e.span.Within text)
    (hxs : ∀ xs, tokens = .ok xs → ∀ x ∈ xs, x.span.Within text)
    {p : List (Lexeme τ) → Reader τ α} (hp : ∀ xs, (p xs).Honest) {describe : τ → String}
    {errors : List SyntaxError}
    (h : (do let xs ← tokens; Reader.readAll (p xs) describe text xs) = .error errors) :
    errors ≠ [] ∧ ∀ e ∈ errors, e.Points tokens text := by
  cases tokens with
  | error faults =>
      obtain rfl := Except.error.inj h
      obtain ⟨hne, hwithin⟩ := hfaults faults rfl
      refine ⟨hne, fun e he => SyntaxError.points_of_within (hwithin e he) fun _ => ?_⟩
      rintro ⟨xs, x, hxs, -⟩
      cases hxs
  | ok xs => exact points_of_readAll (hp xs) (hxs xs rfl) h

end InfraGraph.Reading
