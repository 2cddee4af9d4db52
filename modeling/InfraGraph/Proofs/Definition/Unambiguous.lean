import InfraGraph.Proofs.Definition.Tree

/-!
# The grammar of definitions is unambiguous

The first token of a value tells which rule derives it, and an item never begins with a mark that
ends a list. So the tokens of a tree can be followed from the left, whatever stands behind them.
Only the comma behind a property is not missed where it is missing: a property is told apart from
others where no comma follows.

## Main results

* `ValueTree.distinct`, `PropertyTree.distinct` and the others like them — the tokens of a tree tell
  where it ends and which tree it is.
* `DefinitionsTree.tokens_injective` — a list of tokens has at most one derivation.
-/

namespace InfraGraph.Definition

open Reading (moreTokens Distinct flatMap_append_cancel moreTokens_append_cancel)

theorem MemberKey.token_ne (key : MemberKey) (m : Mark) : key.token ≠ .mark m := by
  cases key <;> simp [token]

namespace ValueTree

/-- A value begins with no mark but an opening one. -/
theorem tokens_append_ne (v : ValueTree) {m : Mark} (hbracket : m ≠ .bracketOpen)
    (hbrace : m ≠ .braceOpen) (r s : List Token) : v.tokens ++ r ≠ .mark m :: s := by
  cases v <;> simp [tokens, Ne.symm hbracket, Ne.symm hbrace]

private theorem tokensOfMember_append_ne (m : MemberKey × ValueTree) (k : Mark) (r s : List Token) :
    tokensOfMember m ++ r ≠ .mark k :: s :=
  fun h => m.1.token_ne k (List.head_eq_of_cons_eq h)

private theorem tokensOfMember_distinct {m : MemberKey × ValueTree}
    (hvalue : Distinct tokens (fun _ => True) m.2) :
    Distinct tokensOfMember (fun _ => True) m := by
  rintro ⟨key, w⟩ r s hr hs h
  simp only [tokensOfMember, List.cons_append, List.cons.injEq] at h
  obtain ⟨hvalues, hrest⟩ := hvalue w r s hr hs h.2
  exact ⟨Prod.ext (MemberKey.token_injective h.1) hvalues, hrest⟩

theorem distinct (v : ValueTree) : Distinct tokens (fun _ => True) v := by
  induction v with
  | list first more trailing hfirst hmore =>
      intro w r s _ _ h
      cases w with
      | list first' more' trailing' =>
          simp only [tokens_list, List.cons_append, List.nil_append, List.append_assoc,
            List.cons.injEq, true_and] at h
          obtain ⟨rfl, hrest⟩ := hfirst first' _ _ trivial trivial h
          obtain ⟨rfl, rfl, rfl⟩ := moreTokens_append_cancel (by simp) hmore
            (fun v r s => v.tokens_append_ne (by simp) (by simp) r s) hrest
          exact ⟨rfl, rfl⟩
      | emptyList =>
          simp only [tokens, List.cons_append, List.nil_append, List.append_assoc,
            List.cons.injEq, true_and] at h
          exact absurd h (first.tokens_append_ne (by simp) (by simp) _ _)
      | _ => simp [tokens] at h
  | object key first more trailing hfirst hmore =>
      intro w r s _ _ h
      cases w with
      | object key' first' more' trailing' =>
          simp only [tokens_object, List.cons_append, List.nil_append, List.append_assoc,
            List.cons.injEq, true_and] at h
          obtain ⟨hmember, hrest⟩ := tokensOfMember_distinct (m := (key, first)) hfirst
            (key', first') _ _ trivial trivial h
          obtain ⟨rfl, rfl⟩ := Prod.mk.inj hmember
          obtain ⟨rfl, rfl, rfl⟩ := moreTokens_append_cancel (by simp)
            (fun m hm => tokensOfMember_distinct (hmore m hm))
            (fun m r s => tokensOfMember_append_ne m _ r s) hrest
          exact ⟨rfl, rfl⟩
      | emptyObject =>
          simp only [tokens, List.cons_append, List.cons.injEq, true_and] at h
          exact absurd h.1 (key.token_ne _)
      | _ => simp [tokens] at h
  | emptyList =>
      intro w r s _ _ h
      cases w with
      | emptyList => exact ⟨rfl, by simpa [tokens] using h⟩
      | list first more trailing =>
          simp only [tokens, List.cons_append, List.nil_append, List.append_assoc,
            List.cons.injEq, true_and] at h
          exact absurd h.symm (first.tokens_append_ne (by simp) (by simp) _ _)
      | _ => simp [tokens] at h
  | emptyObject =>
      intro w r s _ _ h
      cases w with
      | emptyObject => exact ⟨rfl, by simpa [tokens] using h⟩
      | object key first more trailing =>
          simp only [tokens, List.cons_append, List.cons.injEq, true_and] at h
          exact absurd h.1.symm (key.token_ne _)
      | _ => simp [tokens] at h
  | _ =>
      intro w r s _ _ h
      cases w <;> simp_all [tokens]

end ValueTree

/-! ## Properties, components and events -/

/-- No comma stands at the front of the tokens. -/
def NoComma (ts : List Token) : Prop := ∀ more, ts ≠ .mark .comma :: more

namespace PropertyTree

variable {context : Context}

private theorem noComma (p : PropertyTree context) (r : List Token) : NoComma (p.tokens ++ r) := by
  intro more
  simp [tokens]

/-- A property begins with no mark. -/
theorem tokens_append_ne (p : PropertyTree context) (m : Mark) (r s : List Token) :
    p.tokens ++ r ≠ .mark m :: s := by
  simp [tokens]

theorem distinct (p : PropertyTree context) : Distinct tokens NoComma p := by
  rintro ⟨keyword', allowed', value', comma'⟩ r s hr hs h
  obtain ⟨keyword, allowed, value, comma⟩ := p
  simp only [tokens, List.cons_append, List.append_assoc, List.cons.injEq,
    Token.word.injEq] at h
  obtain ⟨hkeyword, h⟩ := h
  obtain rfl := Keyword.text_injective hkeyword
  obtain ⟨rfl, hrest⟩ := value.distinct value' _ _ trivial trivial h
  cases comma with
  | false =>
      cases comma' with
      | false => exact ⟨rfl, hrest⟩
      | true => exact absurd hrest (hr s)
  | true =>
      cases comma' with
      | false => exact absurd hrest.symm (hs r)
      | true => exact ⟨rfl, List.tail_eq_of_cons_eq hrest⟩

/-- Properties end at a mark that is no comma. -/
theorem properties_cancel {ps qs : List (PropertyTree context)} {m : Mark} {r s : List Token}
    (hm : m ≠ .comma) (h : ps.flatMap tokens ++ .mark m :: r = qs.flatMap tokens ++ .mark m :: s) :
    ps = qs ∧ r = s :=
  flatMap_append_cancel (fun p _ => p.distinct) noComma
    (fun r more => by simp [hm]) (fun p r s => p.tokens_append_ne m r s) h

end PropertyTree

private theorem TypePart.token_injective {p q : TypePart} (h : p.token = q.token) : p = q := by
  cases p <;> cases q <;> simp_all [token]

namespace ComponentTree

theorem distinct (c : ComponentTree) : Distinct tokens (fun _ => True) c := by
  rintro ⟨first', more', properties'⟩ r s _ _ h
  obtain ⟨first, more, properties⟩ := c
  simp only [tokens, typeTokens, List.map_eq_flatMap, List.cons_append, List.nil_append,
    List.append_assoc, List.cons.injEq, Token.word.injEq] at h
  obtain ⟨rfl, h⟩ := h
  have hpart : ∀ p ∈ more, Distinct (fun p => [TypePart.token p]) (fun _ => True) p := by
    intro p _ q r s _ _ hpq
    simp only [List.singleton_append, List.cons.injEq] at hpq
    exact ⟨TypePart.token_injective hpq.1, hpq.2⟩
  obtain ⟨rfl, hrest⟩ := flatMap_append_cancel hpart (fun _ _ => trivial) (fun _ => trivial)
    (fun p r s => by cases p <;> simp [TypePart.token]) h
  obtain ⟨rfl, rfl⟩ := PropertyTree.properties_cancel (by simp) hrest
  exact ⟨rfl, rfl⟩

/-- A component begins with no mark. -/
theorem tokens_append_ne (c : ComponentTree) (m : Mark) (r s : List Token) :
    c.tokens ++ r ≠ .mark m :: s := by
  simp [tokens, typeTokens]

end ComponentTree

namespace EventTree

theorem distinct (e : EventTree) : Distinct tokens (fun _ => True) e := by
  rintro ⟨kind', properties'⟩ r s _ _ h
  obtain ⟨kind, properties⟩ := e
  cases kind
  cases kind'
  simp only [tokens, List.cons_append, List.append_assoc, List.nil_append,
    List.cons.injEq, true_and] at h
  obtain ⟨rfl, rfl⟩ := PropertyTree.properties_cancel (by simp) h
  exact ⟨rfl, rfl⟩

/-- An event begins with no mark. -/
theorem tokens_append_ne (e : EventTree) (m : Mark) (r s : List Token) :
    e.tokens ++ r ≠ .mark m :: s := by
  simp [tokens]

end EventTree

/-! ## Whole texts -/

namespace DefinitionsTree

private theorem defaults_cancel {t u : DefinitionsTree} {r s : List Token}
    (h : t.defaultTokens ++ (t.componentTokens ++ r) =
      u.defaultTokens ++ (u.componentTokens ++ s)) :
    t.defaults = u.defaults ∧ t.componentTokens ++ r = u.componentTokens ++ s := by
  unfold defaultTokens at h
  cases ht : t.defaults with
  | none =>
      cases hu : u.defaults with
      | none => exact ⟨rfl, by simpa [ht, hu] using h⟩
      | some qs => simp [ht, hu, componentTokens, sectionTokens] at h
  | some ps =>
      cases hu : u.defaults with
      | none => simp [ht, hu, componentTokens, sectionTokens] at h
      | some qs =>
          rw [ht, hu] at h
          simp only [Option.elim_some, sectionTokens, List.append_assoc, List.cons_append,
            List.nil_append, List.cons.injEq, true_and] at h
          obtain ⟨rfl, hrest⟩ := PropertyTree.properties_cancel (by simp) h
          exact ⟨rfl, hrest⟩

private theorem components_cancel {t u : DefinitionsTree} {r s : List Token}
    (h : t.componentTokens ++ r = u.componentTokens ++ s) :
    t.components = u.components ∧ r = s := by
  simp only [componentTokens, sectionTokens, List.append_assoc, List.cons_append,
    List.nil_append, List.cons.injEq, true_and] at h
  exact flatMap_append_cancel (fun c _ => c.distinct) (fun _ _ => trivial) (fun _ => trivial)
    (fun c r s => c.tokens_append_ne _ r s) h

private theorem events_cancel {t u : DefinitionsTree} (h : t.eventTokens = u.eventTokens) :
    t.events = u.events := by
  unfold eventTokens at h
  cases ht : t.events with
  | none =>
      cases hu : u.events with
      | none => rfl
      | some fs => simp [ht, hu, sectionTokens] at h
  | some es =>
      cases hu : u.events with
      | none => simp [ht, hu, sectionTokens] at h
      | some fs =>
          rw [ht, hu] at h
          simp only [Option.elim_some, sectionTokens, List.cons_append, List.nil_append,
            List.cons.injEq, true_and] at h
          obtain ⟨rfl, -⟩ := flatMap_append_cancel (fun e _ => e.distinct)
            (fun _ _ => trivial) (fun _ => trivial) (fun e r s => e.tokens_append_ne _ r s) h
          rfl

/-- No two derivations have the same tokens. -/
theorem tokens_injective {t u : DefinitionsTree} (h : t.tokens = u.tokens) : t = u := by
  obtain ⟨hdefaults, h⟩ := defaults_cancel h
  obtain ⟨hcomponents, h⟩ := components_cancel h
  have hevents := events_cancel h
  obtain ⟨defaults, components, events⟩ := t
  obtain ⟨defaults', components', events'⟩ := u
  dsimp only at hdefaults hcomponents hevents
  rw [hdefaults, hcomponents, hevents]

end DefinitionsTree

end InfraGraph.Definition
