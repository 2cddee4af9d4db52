import InfraGraph.Proofs.Definition.Positions

/-!
# Literals and what is written for them

The span of a literal covers what is written for it. Where this is a token by itself, the literal is
what the token means, since a literal of several tokens begins with a bracket. So a property can be
recognized by its text wherever it stands, in the defaults, in a component or in an event.

What all readers of properties see to is passed on by the readers around them up to the whole text;
`Gathers` says so along the ways in which they are put together.

## Main results

* `Grammar.gathers_definitions` — what holds of every property that is read.
* `Definitions.toldBy_of_read` — the literals of a text are what their tokens mean.
-/

namespace InfraGraph.Definition

open Reading (Lexeme Reader)
open Reading.Reader (Consumes)
open Text (Span slice)

/-- Where the span of a literal covers a token alone, other than a mark, the literal is what this
token means. -/
def Literal.ToldBy (text : List Char) (a : Spanned Literal) : Prop :=
  ∀ t, Token.Alone text a.span t → (∃ m, t = .mark m) ∨ t.literal? = some a.node

/-- The properties of definitions, those of the defaults first. -/
def Definitions.allProperties (d : Definitions) : List (Spanned Property) :=
  d.defaults.elim [] Spanned.node ++ ((d.components.flatMap fun c => c.node.properties) ++
    d.events.flatMap fun e => e.node.properties)

namespace Grammar

variable {α β : Type} {text : List Char} {xs ws us vs : List (Lexeme Token)} {n : Nat}

/-! ## Readers -/

/-- The condition holds of what the reader gives, if the lexemes that it consumes are some of the
text. -/
def Gathers (xs : List (Lexeme Token)) (p : Reader Token α) (Q : α → Prop) : Prop :=
  Consumes p fun ws a => ws.Sublist xs → Q a

namespace Gathers

variable {p q : Reader Token α} {Q : α → Prop} {R : β → Prop}

theorem of_consumes {L : List (Lexeme Token) → α → Prop} (hp : Consumes p L) :
    Gathers xs p fun _ => True :=
  hp.mono fun _ _ _ _ => trivial

/-- What holds of the first part may be assumed for the second. -/
theorem bind {f : α → Reader Token β} (hp : Gathers xs p Q)
    (hf : ∀ a, Gathers xs (f a) fun b => Q a → R b) : Gathers xs (p >>= f) R :=
  Consumes.bind hp fun us a ha => (hf a).mono fun vs _ hb hsub =>
    hb ((List.sublist_append_right us vs).trans hsub)
      (ha ((List.sublist_append_left us vs).trans hsub))

theorem bind_pure {f : α → β} (hp : Gathers xs p Q) (hf : ∀ a, Q a → R (f a)) :
    Gathers xs (p >>= fun a => pure (f a)) R :=
  Consumes.bind_pure hp fun _ a ha hsub => hf a (ha hsub)

/-- A condition on the items of a repetition holds of all of them. -/
theorem many (hp : Gathers xs p Q) (n : Nat) :
    Gathers xs (Reader.many p n) fun as => ∀ a ∈ as, Q a := by
  refine Consumes.many (fun _ => List.forall_mem_nil _) (fun us a vs as ha has hsub => ?_) hp n
  exact List.forall_mem_cons.2 ⟨ha ((List.sublist_append_left us vs).trans hsub),
    has ((List.sublist_append_right us vs).trans hsub)⟩

private theorem optional (hp : Gathers xs p Q) :
    Gathers xs (Reader.optional p) fun o => ∀ a ∈ o, Q a := by
  refine Consumes.optional hp (fun ws a ha hsub b hb => ?_) fun _ a ha => by cases ha
  obtain rfl := Option.mem_some.1 hb
  exact ha hsub

theorem between (hp : Gathers xs p Q) (opening closing : Mark) :
    Gathers xs (between opening closing p) fun s => Q s.node :=
  .bind (.of_consumes (consumes_mark opening)) fun _ => .bind hp fun _ =>
    .bind_pure (.of_consumes (consumes_mark closing)) fun _ _ ha _ => ha

end Gathers

/-! ## Literals -/

/-- What stands between marks begins with the first of them and ends with the second. -/
theorem begins_between {p : Reader Token α} {L : List (Lexeme Token) → α → Prop}
    (hp : Consumes p L) (opening closing : Mark) :
    Consumes (between opening closing p) fun ws s => ∃ x us y, ws = x :: (us ++ [y]) ∧
      x.token = .mark opening ∧ s.span = ⟨x.span.start, y.span.stop⟩ := by
  refine .bind (consumes_mark opening) ?_
  rintro _ _ ⟨x, rfl, rfl, hx⟩
  refine .bind hp fun us a _ => ?_
  refine .bind (consumes_mark closing) ?_
  rintro _ _ ⟨y, rfl, rfl, -⟩
  exact .pure ⟨x, us, y, rfl, hx, rfl⟩

/-- A text that begins with a mark is no other token alone. -/
theorem eq_mark_of_lexemes {m : Mark} {more : List Char} {x : Lexeme Token}
    (h : Token.lexemes (m.char :: more) = .ok [x]) : x.token = .mark m := by
  unfold Token.lexemes Reading.lexemes at h
  rw [Reading.pieces_cons Token.cut_faithful, Token.cut_mark] at h
  dsimp only at h
  split at h
  · have htokens := Except.ok.inj h
    rw [Reading.lexemesFrom] at htokens
    exact congrArg Lexeme.token (List.cons.inj htokens).1.symm
  · cases h

section Definitions

variable (hxs : Token.lexemes text = .ok xs)

include hxs

private theorem gathers_scalar : Gathers xs scalar (Literal.ToldBy text) := by
  refine .lexeme fun x a h hsub t ht => .inr ?_
  have hmeans : a.span = x.span ∧ x.token.literal? = some a.node := by
    cases hx : x.token <;> simp only [hx, Reader.Verdict.take.injEq, reduceCtorEq] at h <;>
      exact ⟨h ▸ rfl, h ▸ rfl⟩
  have halone := alone_of_sublist hxs hsub
  rw [hmeans.1, Token.Alone, halone] at ht
  rw [← hmeans.2, (Lexeme.mk.inj (List.cons.inj (Except.ok.inj ht)).1).1]

/-- The span of a literal between marks covers no token but a mark alone. -/
theorem toldBy_of_marks {x y : Lexeme Token} {m : Mark} (hx : x.token = .mark m)
    (hsub : (x :: (us ++ [y])).Sublist xs) (l : Literal) :
    Literal.ToldBy text ⟨⟨x.span.start, y.span.stop⟩, l⟩ := by
  intro t ht
  have htiles := Token.tiles_of_lexemes hxs
  have hxmem : x ∈ xs := hsub.subset List.mem_cons_self
  have hymem : y ∈ xs := hsub.subset (by simp)
  have hwithin := htiles.within x hxmem
  have hlast := htiles.within y hymem
  have hordered := (List.pairwise_cons.1 (htiles.ordered.sublist hsub)).1 y (by simp)
  have hmore : Span.Within ⟨x.span.stop, y.span.stop⟩ text :=
    ⟨hwithin.stop, hlast.stop, hordered.trans hlast.ordered⟩
  have hmark : slice x.span text = [m.char] := by
    have hwritten := Token.written_slice hxs hxmem
    rw [hx] at hwritten
    exact hwritten
  have hslice : slice ⟨x.span.start, y.span.stop⟩ text =
      m.char :: slice ⟨x.span.stop, y.span.stop⟩ text := by
    rw [Text.slice_beside hwithin hmore, hmark]
    rfl
  rw [Token.Alone, hslice] at ht
  exact .inl ⟨m, eq_mark_of_lexemes ht⟩

private theorem gathers_literal (n : Nat) : Gathers xs (literal n) (Literal.ToldBy text) := by
  cases n with
  | zero => exact .never
  | succ n =>
      have hlist : Gathers xs (list (literal n) n) (Literal.ToldBy text) := by
        refine Consumes.bind_pure (begins_between ((places_literal hxs n).parts.items n) _ _) ?_
        rintro ws s ⟨x, us, y, rfl, hx, hspan⟩ hsub
        rw [hspan]
        exact toldBy_of_marks hxs hx hsub _
      have hobject : Gathers xs (object (literal n) n) (Literal.ToldBy text) := by
        refine Consumes.bind_pure
          (begins_between ((places_member hxs (places_literal hxs n)).items n) _ _) ?_
        rintro ws s ⟨x, us, y, rfl, hx, hspan⟩ hsub
        rw [hspan]
        exact toldBy_of_marks hxs hx hsub _
      exact .orElse (gathers_scalar hxs) (.orElse hlist hobject)

private theorem gathers_property (context : Context) (n : Nat) :
    Gathers xs (property context n) fun p => Literal.ToldBy text p.node.literal :=
  .bind (.of_consumes (places_keyword hxs)) fun _ => .bind (gathers_literal hxs n) fun _ =>
    .bind_pure (.of_consumes (L := fun _ _ => True) (.optional (consumes_mark .comma)
      (fun _ _ _ => trivial) trivial)) fun _ _ hvalue _ => hvalue

end Definitions

/-! ## Whole texts -/

section Properties

variable {P : Spanned Property → Prop}
  (hP : ∀ context n, Gathers xs (property context n) P)

include hP

private theorem gathers_properties (context : Context) (n : Nat) :
    Gathers xs (properties context n) fun ps => ∀ p ∈ ps, P p :=
  (hP context n).many n

private theorem gathers_defaults : Gathers xs (defaults n) fun ps => ∀ p ∈ ps.node, P p :=
  .bind (.of_consumes (consumes_theWord "defaults")) fun _ =>
    .bind_pure ((gathers_properties hP .defaults n).between _ _) fun _ hs _ => hs

private theorem gathers_component :
    Gathers xs (component text n) fun c => ∀ p ∈ c.node.properties, P p :=
  .bind (.of_consumes consumes_componentType) fun _ =>
    .bind_pure ((gathers_properties hP .component n).between _ _) fun _ hs _ => hs

private theorem gathers_components :
    Gathers xs (components text n) fun cs => ∀ c ∈ cs, ∀ p ∈ c.node.properties, P p :=
  .bind (.of_consumes (consumes_theWord "components")) fun _ =>
    .bind_pure (((gathers_component hP).many n).between _ _) fun _ hs _ => hs

private theorem gathers_event : Gathers xs (event n) fun e => ∀ p ∈ e.node.properties, P p := by
  have hkind : Gathers xs eventKind fun _ => True := .lexeme fun _ _ _ _ => trivial
  exact .bind hkind fun _ =>
    .bind_pure ((gathers_properties hP .event n).between _ _) fun _ hs _ => hs

private theorem gathers_events :
    Gathers xs (events n) fun es => ∀ e ∈ es, ∀ p ∈ e.node.properties, P p :=
  .bind (.of_consumes (consumes_theWord "events")) fun _ =>
    .bind_pure (((gathers_event hP).many n).between _ _) fun _ hs _ => hs

/-- What holds of every property that is read holds of all properties of a text. -/
theorem gathers_definitions :
    Gathers xs (definitions text n) fun d => ∀ p ∈ d.allProperties, P p := by
  refine .bind (gathers_defaults hP).optional fun someDefaults =>
    .bind (gathers_components hP) fun cs => .bind_pure (gathers_events hP).optional ?_
  intro someEvents hevents hcs hdefaults p hp
  rcases List.mem_append.1 hp with hp | hp
  · cases someDefaults with
    | none => cases hp
    | some ps => exact hdefaults ps rfl p hp
  rcases List.mem_append.1 hp with hp | hp
  · obtain ⟨c, hc, hp⟩ := List.mem_flatMap.1 hp
    exact hcs c hc p hp
  · obtain ⟨e, he, hmem⟩ := List.mem_flatMap.1 hp
    cases someEvents with
    | none => cases he
    | some es => exact hevents es rfl e he p hmem

end Properties

end Grammar

/-- The literals of a text are what their tokens mean. -/
theorem Definitions.toldBy_of_read {text : List Char} {d : Definitions} (hd : read text = .ok d) :
    ∀ p ∈ d.allProperties, Literal.ToldBy text p.node.literal := by
  obtain ⟨xs, hxs⟩ := exists_lexemes_of_read hd
  rw [read, hxs] at hd
  have hresult := Reader.readAll_eq_ok_iff.1 hd
  obtain ⟨ws, hws, hgathered⟩ :=
    Grammar.gathers_definitions (Grammar.gathers_property hxs) xs d [] hresult
  rw [List.append_nil] at hws
  exact hgathered (hws ▸ List.Sublist.refl ws)

end InfraGraph.Definition
