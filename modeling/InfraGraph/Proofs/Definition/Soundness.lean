import InfraGraph.Definition.Grammar
import InfraGraph.Proofs.Definition.Tree
import InfraGraph.Proofs.Reading.Gives

/-!
# What is read is derived by the grammar of definitions

Whatever a reader accepts, for whatever bound, are the tokens of a tree of its rule, and it makes of
them what the tree means.

## Main results

* `gives_literal`, `gives_property`, `gives_component`, `gives_event` — the trees of these rules.
* `gives_definitions` — the derivation of a whole text.
-/

namespace InfraGraph.Definition.Grammar

open Reading (Reader moreTokens map_eq_map_of_forall₂)
open Reading.Reader (Gives)

variable {α : Type} {n : Nat}

/-! ## Marks and words -/

private theorem gives_mark (m : Mark) : Gives (mark m) fun ts _ => ts = [.mark m] := by
  refine .lexeme fun x s h => ?_
  cases ht : x.token with
  | mark k =>
      by_cases hk : k = m
      · rw [hk]
      · simp [ht, hk] at h
  | _ => simp [ht] at h

private theorem gives_theWord (text : String) :
    Gives (theWord text) fun ts _ => ts = [.word text] := by
  refine .lexeme fun x s h => ?_
  cases ht : x.token with
  | word w =>
      by_cases hw : w = text
      · rw [hw]
      · simp [ht, hw] at h
  | _ => simp [ht] at h

private theorem gives_between {p : Reader Token α} {L : List Token → α → Prop}
    (opening closing : Mark) (hp : Gives p L) : Gives (between opening closing p) fun ts s =>
      ∃ us, ts = [.mark opening] ++ (us ++ [.mark closing]) ∧ L us s.node := by
  refine .bind (gives_mark opening) fun _ _ hopening => ?_
  refine .bind hp fun us a ha => ?_
  refine .bind (gives_mark closing) fun _ _ hclosing => ?_
  exact .pure ⟨us, by rw [hopening, hclosing, List.append_nil], ha⟩

/-! ## Literals -/

/-- A literal that is read has a tree. -/
def GivesValue (p : Reader Token (Spanned Literal)) : Prop :=
  Gives p fun ts a => ∃ v : ValueTree, ts = v.tokens ∧ a.node.unplaced = v.literal

private theorem gives_scalar : GivesValue scalar := by
  refine .lexeme fun x a h => ?_
  cases ht : x.token with
  | string s =>
      simp only [ht, Reader.Verdict.take.injEq] at h
      exact ⟨.string s, rfl, h ▸ rfl⟩
  | word s =>
      simp only [ht, Reader.Verdict.take.injEq] at h
      exact ⟨.word s, rfl, h ▸ rfl⟩
  | int n =>
      simp only [ht, Reader.Verdict.take.injEq] at h
      exact ⟨.int n, rfl, h ▸ rfl⟩
  | float y =>
      simp only [ht, Reader.Verdict.take.injEq] at h
      exact ⟨.float y, rfl, h ▸ rfl⟩
  | bool b =>
      simp only [ht, Reader.Verdict.take.injEq] at h
      exact ⟨.bool b, rfl, h ▸ rfl⟩
  | code body =>
      simp only [ht, Reader.Verdict.take.injEq] at h
      exact ⟨.code body, rfl, h ▸ rfl⟩
  | mark m => simp [ht] at h

private theorem gives_list {literal : Reader Token (Spanned Literal)}
    (hliteral : GivesValue literal) :
    GivesValue (list literal n) := by
  refine .bind (gives_between _ _ (hliteral.items (gives_mark .comma) n)) ?_
  rintro _ s ⟨us, rfl, ⟨rfl, hitems⟩ | ⟨first, more, trailing, rfl, hitems⟩⟩
  · refine .pure ⟨.emptyList, rfl, ?_⟩
    dsimp only
    rw [hitems]
    rfl
  · refine .pure ⟨.list first more trailing, ?_, ?_⟩
    · rw [ValueTree.tokens_list, List.append_nil]
    · rw [ValueTree.literal, Literal.unplaced, unplacedItems_eq_map,
        ValueTree.itemLiterals_eq_map]
      have hmeans := hitems.imp fun v a ha => congrArg nowhere ha
      exact congrArg Literal.list (map_eq_map_of_forall₂ hmeans)

private theorem gives_memberKey : Gives memberKey fun ts a => ∃ k : MemberKey,
    ts = [k.token] ∧ a.node = k.text := by
  refine .lexeme fun x a h => ?_
  cases ht : x.token with
  | word s =>
      simp only [ht, Reader.Verdict.take.injEq] at h
      exact ⟨.word s, rfl, h ▸ rfl⟩
  | string s =>
      simp only [ht, Reader.Verdict.take.injEq] at h
      exact ⟨.string s, rfl, h ▸ rfl⟩
  | _ => simp [ht] at h

private theorem gives_member {literal : Reader Token (Spanned Literal)}
    (hliteral : GivesValue literal) :
    Gives (member literal) fun ts a => ∃ m : MemberKey × ValueTree,
      ts = ValueTree.tokensOfMember m ∧ a.1.node = m.1.text ∧ a.2.node.unplaced = m.2.literal := by
  refine .bind gives_memberKey ?_
  rintro _ key ⟨k, rfl, hkey⟩
  refine .bind hliteral ?_
  rintro _ value ⟨v, rfl, hvalue⟩
  exact .pure ⟨(k, v), by rw [List.append_nil]; rfl, hkey, hvalue⟩

private theorem gives_object {literal : Reader Token (Spanned Literal)}
    (hliteral : GivesValue literal) :
    GivesValue (object literal n) := by
  refine .bind (gives_between _ _ ((gives_member hliteral).items (gives_mark .comma) n)) ?_
  rintro _ s ⟨us, rfl, ⟨rfl, hitems⟩ | ⟨⟨key, first⟩, more, trailing, rfl, hitems⟩⟩
  · refine .pure ⟨.emptyObject, rfl, ?_⟩
    dsimp only
    rw [hitems]
    rfl
  · refine .pure ⟨.object key first more trailing, ?_, ?_⟩
    · rw [ValueTree.tokens_object, List.append_nil]
    · rw [ValueTree.literal, Literal.unplaced, unplacedMembers_eq_map,
        ValueTree.memberLiterals_eq_map]
      have hmeans : List.Forall₂ (fun m a => (nowhere a.1.node, nowhere a.2.node.unplaced) =
          ValueTree.literalOfMember m) ((key, first) :: more) s.node := by
        refine hitems.imp fun m a ha => ?_
        rw [ha.1, ha.2]
        rfl
      exact congrArg Literal.object (map_eq_map_of_forall₂ hmeans)

/-- Every literal that is read has a derivation. -/
theorem gives_literal (n : Nat) : GivesValue (literal n) := by
  induction n with
  | zero => exact fun _ _ _ hresult => by cases hresult
  | succ n ih => exact .orElse gives_scalar (.orElse (gives_list ih) (gives_object ih))

/-! ## Properties -/

variable {context : Context}

private theorem gives_keyword : Gives (keyword context) fun ts a =>
    ts = [.word a.node.text] ∧ context.allows a.node = true := by
  refine .lexeme fun x a h => ?_
  cases ht : x.token with
  | word s =>
      cases hk : Keyword.ofText? s with
      | none => simp [ht, hk] at h
      | some k =>
          by_cases hallowed : context.allows k = true
          · simp only [ht, hk, hallowed, if_true, Reader.Verdict.take.injEq] at h
            rw [← h, Keyword.ofText?_eq_some_iff.1 hk]
            exact ⟨rfl, hallowed⟩
          · simp [ht, hk, hallowed] at h
  | _ => simp [ht] at h

/-- Every property that is read has a derivation. -/
theorem gives_property : Gives (property context n) fun ts a =>
    ∃ p : PropertyTree context, ts = p.tokens ∧ a.node.unplaced = p.property := by
  refine .bind gives_keyword ?_
  rintro _ key ⟨rfl, hallowed⟩
  refine .bind (gives_literal n) ?_
  rintro _ value ⟨v, rfl, hvalue⟩
  have hcomma : Gives (Reader.optional (mark .comma)) fun ts _ => ∃ comma : Bool,
      ts = if comma then [.mark .comma] else [] :=
    (gives_mark .comma).optional (fun _ _ h => ⟨true, h⟩) ⟨false, rfl⟩
  refine .bind hcomma ?_
  rintro _ _ ⟨comma, rfl⟩
  refine .pure ⟨⟨key.node, hallowed, v, comma⟩, ?_, ?_⟩
  · rw [List.append_nil]
    rfl
  · rw [Property.unplaced, PropertyTree.property, hvalue]

private theorem gives_properties : Gives (properties context n) fun ts as =>
    ∃ ps : List (PropertyTree context), ts = ps.flatMap PropertyTree.tokens ∧
      unplacedProperties as = PropertyTree.properties ps := by
  refine (gives_property.many n).mono ?_
  rintro _ as ⟨ps, rfl, hps⟩
  exact ⟨ps, rfl, map_eq_map_of_forall₂ (hps.imp fun p a ha => congrArg nowhere ha)⟩

/-! ## Components and events -/

private theorem gives_anyWord : Gives anyWord fun ts _ => ∃ text, ts = [.word text] := by
  refine .lexeme fun x a h => ?_
  cases ht : x.token with
  | word s => exact ⟨s, rfl⟩
  | _ => simp [ht] at h

private theorem gives_typePart : Gives (mark .dot <|> anyWord) fun ts _ =>
    ∃ p : TypePart, ts = [p.token] ∧ True :=
  .orElse ((gives_mark .dot).mono fun _ _ h => ⟨.dot, h, trivial⟩)
    (gives_anyWord.mono fun _ _ ⟨text, h⟩ => ⟨.word text, h, trivial⟩)

/-- Every component that is read has a derivation, types aside. -/
theorem gives_component {text : List Char} : Gives (component text n) fun ts a =>
    ∃ c : ComponentTree, ts = c.tokens ∧ a.node.unplaced.untyped = c.definition := by
  have htype : Gives (componentType text n) fun ts _ => ∃ (first : String) (more : List TypePart),
      ts = .word first :: more.map TypePart.token := by
    refine .bind gives_anyWord ?_
    rintro _ _ ⟨first, rfl⟩
    refine .bind (gives_typePart.many n) ?_
    rintro _ _ ⟨more, rfl, -⟩
    exact .pure ⟨first, more, by rw [List.append_nil, List.map_eq_flatMap]; rfl⟩
  refine .bind htype ?_
  rintro _ type ⟨first, more, rfl⟩
  refine .bind (gives_between _ _ gives_properties) ?_
  rintro _ s ⟨_, rfl, ps, rfl, hs⟩
  refine .pure ⟨⟨first, more, ps⟩, ?_, ?_⟩
  · rw [List.append_nil]
    rfl
  · exact congrArg (ComponentDefinition.mk (nowhere "")) hs

private theorem gives_eventKind : Gives eventKind fun ts a => ts = [.word a.node.text] := by
  refine .lexeme fun x a h => ?_
  cases ht : x.token with
  | word s =>
      cases hk : EventKind.ofText? s with
      | none => simp [ht, hk] at h
      | some k =>
          simp only [ht, hk, Reader.Verdict.take.injEq] at h
          rw [← h, EventKind.ofText?_eq_some_iff.1 hk]
  | _ => simp [ht] at h

/-- Every event that is read has a derivation. -/
theorem gives_event : Gives (event n) fun ts a =>
    ∃ e : EventTree, ts = e.tokens ∧ a.node.unplaced = e.definition := by
  refine .bind gives_eventKind ?_
  rintro _ kind rfl
  refine .bind (gives_between _ _ gives_properties) ?_
  rintro _ s ⟨_, rfl, ps, rfl, hs⟩
  refine .pure ⟨⟨kind.node, ps⟩, ?_, ?_⟩
  · rw [List.append_nil]
    rfl
  · rw [EventDefinition.unplaced, EventTree.definition, hs]

/-! ## Whole texts -/

private theorem gives_defaults :
    Gives (defaults n) fun ts a => ∃ ps : List (PropertyTree .defaults),
    ts = sectionTokens "defaults" (ps.flatMap PropertyTree.tokens) ∧
      unplacedProperties a.node = PropertyTree.properties ps := by
  refine .bind (gives_theWord "defaults") ?_
  rintro _ _ rfl
  refine .bind (gives_between _ _ gives_properties) ?_
  rintro _ s ⟨_, rfl, ps, rfl, hs⟩
  exact .pure ⟨ps, by rw [List.append_nil]; rfl, hs⟩

private theorem gives_components {text : List Char} : Gives (components text n) fun ts as =>
    ∃ cs : List ComponentTree,
      ts = sectionTokens "components" (cs.flatMap ComponentTree.tokens) ∧
        List.Forall₂ (fun c a => a.node.unplaced.untyped = ComponentTree.definition c) cs as := by
  refine .bind (gives_theWord "components") ?_
  rintro _ _ rfl
  refine .bind (gives_between _ _ (gives_component.many n)) ?_
  rintro _ s ⟨_, rfl, cs, rfl, hcs⟩
  exact .pure ⟨cs, by rw [List.append_nil]; rfl, hcs⟩

private theorem gives_events : Gives (events n) fun ts as => ∃ es : List EventTree,
    ts = sectionTokens "events" (es.flatMap EventTree.tokens) ∧
      List.Forall₂ (fun e a => a.node.unplaced = EventTree.definition e) es as := by
  refine .bind (gives_theWord "events") ?_
  rintro _ _ rfl
  refine .bind (gives_between _ _ (gives_event.many n)) ?_
  rintro _ s ⟨_, rfl, es, rfl, hes⟩
  exact .pure ⟨es, by rw [List.append_nil]; rfl, hes⟩

/-- What is read has a derivation, and it is read as the derivation means it. -/
theorem gives_definitions {text : List Char} : Gives (definitions text n) fun ts d =>
    ∃ t : DefinitionsTree, ts = t.tokens ∧ d.unplaced.untyped = t.definitions := by
  have hdefaults : Gives (Reader.optional (defaults n)) fun ts o =>
      ∃ someDefaults : Option (List (PropertyTree .defaults)),
        (∀ cs es, ts = (DefinitionsTree.mk someDefaults cs es).defaultTokens) ∧
          o.map (fun s => nowhere (unplacedProperties s.node)) =
            someDefaults.map fun ps => nowhere (PropertyTree.properties ps) :=
    gives_defaults.optional
      (fun _ a ⟨ps, hts, ha⟩ => ⟨some ps, fun _ _ => hts,
        congrArg (fun ps => some (nowhere ps)) ha⟩) ⟨none, fun _ _ => rfl, rfl⟩
  have hevents : Gives (Reader.optional (events n)) fun ts o =>
      ∃ someEvents : Option (List EventTree),
        (∀ ds cs, ts = (DefinitionsTree.mk ds cs someEvents).eventTokens) ∧
          (o.getD []).map (fun e => nowhere e.node.unplaced) =
            (someEvents.getD []).map fun e => nowhere e.definition :=
    gives_events.optional
      (fun _ as ⟨es, hts, has⟩ => ⟨some es, fun _ _ => hts,
        map_eq_map_of_forall₂ (has.imp fun e a ha => congrArg nowhere ha)⟩)
      ⟨none, fun _ _ => rfl, rfl⟩
  refine .bind hdefaults ?_
  rintro us ds ⟨someDefaults, hus, hds⟩
  refine .bind gives_components ?_
  rintro _ as ⟨cs, rfl, hcs⟩
  refine .bind hevents ?_
  rintro vs es ⟨someEvents, hvs, hes⟩
  refine .pure ⟨⟨someDefaults, cs, someEvents⟩, ?_, ?_⟩
  · rw [hus cs someEvents, hvs someDefaults cs, List.append_nil]
    rfl
  · have hcomponents := map_eq_map_of_forall₂ (f := fun a : Spanned ComponentDefinition =>
      nowhere a.node.unplaced.untyped) (hcs.imp fun c a ha => congrArg nowhere ha)
    simp only [Definitions.untyped, Definitions.unplaced, DefinitionsTree.definitions,
      List.map_map, Function.comp_def]
    rw [hds, hes]
    exact congrArg (fun cs => Definitions.mk _ cs _) hcomponents

end InfraGraph.Definition.Grammar
