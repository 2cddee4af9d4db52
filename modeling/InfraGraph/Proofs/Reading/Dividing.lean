import InfraGraph.Proofs.Reading.Tiling

/-!
# Texts divided at a place

Where a text is divided, its pieces are those of the first part and those of the second part, unless
one of them stands astride the place. It is cut off where the text goes on behind the place, and its
beginning is what the first part ends with.

## Main results

* `Astride` — a piece of a text reaches over a place in it.
* `pieces_append_cases` — the pieces of a text, divided at a place.
* `cutWhile_halts`, `cutQuoted_halts` — cuts that end before a place.
-/

namespace InfraGraph.Reading

open InfraGraph.Text (width)

variable {τ : Type} {cut : Cut τ} {cs rest before after : List Char}

/-! ## Dividing -/

/-- Of a text, the piece `p` begins before a place, with `start`, and ends behind it, with
`stop`. -/
structure Astride (cut : Cut τ) (before after : List Char) (ps : List (Piece τ)) (start : List Char)
    (p : Piece τ) (stop : List Char) (qs : List (Piece τ)) : Prop where
  start_ne_nil : start ≠ []
  stop_ne_nil : stop ≠ []
  text_eq : p.text = start ++ stop
  before_eq : before = textOf ps ++ start
  after_eq : after = stop ++ textOf qs
  pieces_before : pieces cut before = ps ++ pieces cut start
  pieces_whole : pieces cut (before ++ after) = ps ++ p :: qs
  cutOff : CutOff cut p (textOf qs)

theorem Astride.cons {ps qs : List (Piece τ)} {p q : Piece τ} {start stop behind : List Char}
    (h : Astride cut behind after ps start p stop qs)
    (hbefore : pieces cut before = q :: pieces cut behind) (htext : before = q.text ++ behind)
    (hwhole : pieces cut (before ++ after) = q :: pieces cut (behind ++ after)) :
    Astride cut before after (q :: ps) start p stop qs where
  start_ne_nil := h.start_ne_nil
  stop_ne_nil := h.stop_ne_nil
  text_eq := h.text_eq
  before_eq := by rw [htext, h.before_eq, textOf_cons, List.append_assoc]
  after_eq := h.after_eq
  pieces_before := by rw [hbefore, h.pieces_before, List.cons_append]
  pieces_whole := by rw [hwhole, h.pieces_whole, List.cons_append]
  cutOff := h.cutOff

/-- The piece is one of the text. -/
theorem Astride.mem {ps qs : List (Piece τ)} {p : Piece τ} {start stop : List Char}
    (h : Astride cut before after ps start p stop qs) : p ∈ pieces cut (before ++ after) := by
  rw [h.pieces_whole]
  exact List.mem_append_right ps List.mem_cons_self

/-- The pieces of a text are those of its parts, unless one of them stands astride the place between
these. -/
theorem pieces_append_cases (hfaithful : cut.Faithful) (hcancels : cut.Cancels)
    (hflawless : Flawless (pieces cut (before ++ after))) :
    pieces cut (before ++ after) = pieces cut before ++ pieces cut after ∨
      ∃ ps start p stop qs, Astride cut before after ps start p stop qs := by
  induction hlength : before.length using Nat.strongRecOn generalizing before with
  | ind n ih =>
      subst hlength
      cases before with
      | nil => exact .inl rfl
      | cons c cs =>
          obtain ⟨happend, hne⟩ := hfaithful c (cs ++ after)
          have hwhole : pieces cut (c :: cs ++ after) =
              (cut c (cs ++ after)).1 :: pieces cut (cut c (cs ++ after)).2 :=
            pieces_cons hfaithful c (cs ++ after)
          have hcutOff := cutOff_cut hfaithful c (cs ++ after)
          generalize hcut : cut c (cs ++ after) = r at happend hne hwhole hcutOff
          obtain ⟨p, rest⟩ := r
          dsimp only at happend hne hwhole hcutOff
          rw [hwhole] at hflawless
          obtain ⟨hp, hmore⟩ := List.forall_mem_cons.1 hflawless
          rw [← List.cons_append] at happend
          -- The first piece ends before the place, at the place, or behind it.
          rcases List.append_eq_append_iff.1 happend with ⟨behind, hbefore, hrest⟩ |
            ⟨stop, htext, hafter⟩
          · rw [hrest] at hcut hwhole hmore
            have hfirst := pieces_cons hfaithful c cs
            rw [hcancels hp hcut] at hfirst
            have hshorter : behind.length < (c :: cs).length := by
              have hpos := List.length_pos_iff.2 hne
              rw [hbefore, List.length_append]
              omega
            rcases ih _ hshorter hmore rfl with hboth | ⟨ps, start, q, stop, qs, hastride⟩
            · left
              rw [hwhole, hfirst, hboth, List.cons_append]
            · exact .inr ⟨p :: ps, start, q, stop, qs, hastride.cons hfirst hbefore hwhole⟩
          · by_cases hstop : stop = []
            · subst hstop
              rw [List.nil_append] at hafter
              subst hafter
              have hfirst := pieces_cons hfaithful c cs
              have halone : cut c (cs ++ after) = (p, [] ++ after) := hcut
              rw [hcancels hp halone] at hfirst
              left
              rw [hwhole, hfirst]
              rfl
            · have hqs : textOf (pieces cut rest) = rest := textOf_pieces hfaithful rest
              refine .inr ⟨[], c :: cs, p, stop, pieces cut rest, List.cons_ne_nil c cs, hstop,
                htext, rfl, ?_, rfl, hwhole, ?_⟩
              · rw [hqs, hafter]
              · rw [hqs]
                exact hcutOff

/-! ## Tokens -/

section

variable {ps qs : List (Piece τ)} {xs ys : List (Lexeme τ)}

/-- The tokens before a place are those of the pieces before it, and so behind it. -/
theorem eq_lexemesFrom_of_divided {offset place : Nat}
    (h : xs ++ ys = lexemesFrom 0 ps ++ lexemesFrom offset qs) (hps : ∀ p ∈ ps, p.text ≠ [])
    (hqs : ∀ q ∈ qs, q.text ≠ []) (hbefore : width (textOf ps) ≤ place) (hbehind : place ≤ offset)
    (hxs : ∀ x ∈ xs, x.span.stop ≤ place) (hys : ∀ y ∈ ys, place ≤ y.span.start) :
    xs = lexemesFrom 0 ps ∧ ys = lexemesFrom offset qs := by
  have hfirst := bounds_lexemesFrom 0 hps
  have hsecond := bounds_lexemesFrom offset hqs
  have hkept {ws : List (Lexeme τ)} (hws : ∀ x ∈ ws, x.span.stop ≤ place) :
      ws.filter (fun x => x.span.stop ≤ place) = ws :=
    List.filter_eq_self.2 fun x hx => decide_eq_true (hws x hx)
  have hnone {ws : List (Lexeme τ)} (hws : ∀ y ∈ ws, place < y.span.stop) :
      ws.filter (fun x => x.span.stop ≤ place) = [] :=
    List.filter_eq_nil_iff.2 fun y hy => by simpa using hws y hy
  have hysStop : ∀ y ∈ ys, place < y.span.stop := by
    intro y hy
    refine (hys y hy).trans_lt ?_
    have hmem : y ∈ lexemesFrom 0 ps ++ lexemesFrom offset qs := h ▸ List.mem_append_right xs hy
    rcases List.mem_append.1 hmem with hmem | hmem
    · exact (hfirst y hmem).2.1
    · exact (hsecond y hmem).2.1
  have hfirstStop : ∀ x ∈ lexemesFrom 0 ps, x.span.stop ≤ place := fun x hx => by
    have hbounds := hfirst x hx
    omega
  have hsecondStop : ∀ y ∈ lexemesFrom offset qs, place < y.span.stop := fun y hy => by
    have hbounds := hsecond y hy
    omega
  have hfilter := congrArg (List.filter fun x => x.span.stop ≤ place) h
  rw [List.filter_append, List.filter_append, hkept hxs, hnone hysStop, hkept hfirstStop,
    hnone hsecondStop, List.append_nil, List.append_nil] at hfilter
  subst hfilter
  exact ⟨rfl, List.append_cancel_left h⟩

/-- A piece astride a place between tokens is none of them. -/
theorem Astride.kind_eq_gap {start stop : List Char} {p : Piece τ}
    (h : Astride cut before after ps start p stop qs)
    (hraw : lexemes cut (before ++ after) = .ok (xs ++ ys))
    (hxs : ∀ x ∈ xs, x.span.stop ≤ width before) (hys : ∀ y ∈ ys, width before ≤ y.span.start) :
    p.kind = .gap := by
  have hlexemes := eq_lexemesFrom_of_lexemes hraw
  rw [h.pieces_whole] at hlexemes
  cases hkind : p.kind with
  | gap => rfl
  | fault cause shown => exact absurd hkind (flawless_of_lexemes hraw p h.mem cause shown)
  | token t =>
      have hstart := width_pos h.start_ne_nil
      have hstop := width_pos h.stop_ne_nil
      have hplace : width before = width (textOf ps) + width start := by
        rw [h.before_eq, Text.width_append]
      have hwidth : width p.text = width start + width stop := by
        rw [h.text_eq, Text.width_append]
      have hmem :
          (⟨t, width (textOf ps), width (textOf ps) + width p.text⟩ : Lexeme τ) ∈ xs ++ ys := by
        rw [hlexemes, lexemesFrom_append, lexemesFrom, hkind, Nat.zero_add]
        exact List.mem_append_right _ List.mem_cons_self
      rcases List.mem_append.1 hmem with hmem | hmem
      · have hbound := hxs _ hmem
        dsimp only at hbound
        omega
      · have hbound := hys _ hmem
        dsimp only at hbound
        omega

end

/-! ## Halting -/

/-- A run of characters is cut off alike where what follows does not go on with it. -/
theorem cutWhile_halts {inClass : Char → Bool}
    (hstop : ∀ c more, rest = c :: more → inClass c = false) (kind : List Char → PieceKind τ)
    (c : Char) (cs : List Char) :
    cutWhile inClass kind c (cs ++ rest) =
      ((cutWhile inClass kind c cs).1, (cutWhile inClass kind c cs).2 ++ rest) := by
  rw [cutWhile, takeWhile_halts hstop, dropWhile_halts hstop]
  rfl

/-- A class that has ended already does not go on. -/
theorem cutWhile_append_of_ne_nil {inClass : Char → Bool} {kind : List Char → PieceKind τ}
    {c : Char} (hne : (cutWhile inClass kind c cs).2 ≠ []) (rest : List Char) :
    cutWhile inClass kind c (cs ++ rest) =
      ((cutWhile inClass kind c cs).1, (cutWhile inClass kind c cs).2 ++ rest) := by
  obtain ⟨d, ds, hrest⟩ := List.exists_cons_of_ne_nil hne
  have hcs : cs = cs.takeWhile inClass ++ d :: ds := by
    conv => lhs; rw [← List.takeWhile_append_dropWhile (p := inClass) (l := cs)]
    exact congrArg _ hrest
  have hd : inClass d = false := by
    have hhead := List.head?_dropWhile_not inClass cs
    have hcons : cs.dropWhile inClass = d :: ds := hrest
    rw [hcons] at hhead
    simpa using hhead
  have hstop : ∀ e more, d :: (ds ++ rest) = e :: more → inClass e = false := by
    intro e more hcons
    rw [← (List.cons.inj hcons).1]
    exact hd
  have htake : ∀ e ∈ cs.takeWhile inClass, inClass e = true := fun e he =>
    List.mem_takeWhile_imp he
  have happend : cs ++ rest = cs.takeWhile inClass ++ d :: (ds ++ rest) := by
    conv => lhs; rw [hcs]
    rw [List.append_assoc, List.cons_append]
  rw [happend, cutWhile_append kind c htake hstop, hrest]
  rfl

/-- A string that is closed is cut off alike, whatever follows. -/
theorem cutQuoted_halts {string : String → τ} {quote : Char} (hquote : quote ≠ '\\')
    (hp : ∀ cause shown, (cutQuoted string quote cs).1.kind ≠ .fault cause shown)
    (rest : List Char) :
    cutQuoted string quote (cs ++ rest) =
      ((cutQuoted string quote cs).1, (cutQuoted string quote cs).2 ++ rest) := by
  have happend := Quoted.taken_append_rest quote cs
  by_cases hclosed : (quoted quote cs).closed = true
  · rw [Quoted.taken, if_pos hclosed, List.append_assoc, List.singleton_append] at happend
    have hquoted := quoted_of_body hquote (quotedBody_of_closed hclosed)
      ((quoted quote cs).rest ++ rest)
    have hcs : (quoted quote cs).body ++ quote :: ((quoted quote cs).rest ++ rest) =
        cs ++ rest := by
      conv => rhs; rw [← happend]
      rw [List.append_assoc, List.cons_append]
    rw [hcs] at hquoted
    rw [cutQuoted, cutQuoted, hquoted, if_pos hclosed, Quoted.taken, Quoted.taken, if_pos hclosed]
    rfl
  · rw [cutQuoted, if_neg hclosed] at hp
    exact absurd rfl (hp _ _)

end InfraGraph.Reading
