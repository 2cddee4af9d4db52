import InfraGraph.Proofs.Definition.TypeText

/-!
# Derivations of written definitions

What definitions are written with can be cut off again part by part, and it has a derivation. The
derivation means the definitions that were written down. Items and members correspond to their
derivations one by one, so the derivations are put together along the lists.

## Main results

* `Definitions.spelled_of_mem_parts` — definitions are written with parts that can stand alone.
* `Literal.Writable.exists_tree` — a written literal has a derivation.
* `Definitions.Writable.exists_tree` — so do written definitions.
-/

namespace InfraGraph.Definition

open Reading (Piece Chunk Flawless tokenPiece textOf moreTokens moreTokens_eq_of_forall₂
  exists_forall₂ map_eq_map_of_forall₂ flatMap_eq_flatMap_of_forall₂)

/-! ## Parts of a text -/

namespace Part

/-- The pieces that a part is cut into. -/
def pieces : Part → List (Piece Token)
  | token t => [tokenPiece Token.spelling t]
  | componentType text => Reading.pieces Token.cut text.toList

/-- The tokens that a part is read as. -/
def tokens (p : Part) : List Token := p.pieces.filterMap Piece.token?

/-- The parts that definitions are written with. -/
def Spelled : Part → Prop
  | token t => t.Spelled
  | componentType text => IsComponentType text

/-- The pieces of a part are spelled like it. -/
theorem textOf_pieces (p : Part) : textOf p.pieces = p.spelling := by
  cases p with
  | token t => exact List.append_nil _
  | componentType text => exact Reading.flatMap_pieces Token.cut_faithful text.toList

/-- A part that is spelled as it should be is cut off again. -/
theorem chunk {p : Part} (hp : p.Spelled) : Chunk Token.cut p.pieces := by
  cases p with
  | token t => exact Token.chunk hp
  | componentType text =>
      obtain ⟨first, more, htext, hfirst, hmore⟩ := hp
      rw [pieces, htext, pieces_joined hfirst hmore]
      exact chunk_typePieces hfirst hmore

/-- A part that is spelled as it should be has no faults. -/
theorem flawless {p : Part} (hp : p.Spelled) : Flawless p.pieces := by
  cases p with
  | token t => exact List.forall_mem_singleton.2 fun _ _ => by simp [tokenPiece]
  | componentType text =>
      obtain ⟨first, more, htext, hfirst, hmore⟩ := hp
      rw [pieces, htext, pieces_joined hfirst hmore]
      exact flawless_typePieces first more

theorem flatMap_tokens_map_token (ts : List Token) : (ts.map token).flatMap tokens = ts := by
  rw [List.flatMap_map]
  exact List.flatMap_singleton' ts

end Part

/-! ## Tokens that can be written -/

section Spelled

variable {context : Context} {ps : List (Spanned Property)} {t : Token}

private theorem spelled_of_mem_moreTokens {ι : Type} {tokens : ι → List Token} {is : List ι}
    (his : ∀ i ∈ is, ∀ t ∈ tokens i, t.Spelled)
    (ht : t ∈ moreTokens (.mark .comma) tokens is false) : t.Spelled := by
  induction is with
  | nil => exact absurd ht List.not_mem_nil
  | cons i is ih =>
      rw [Reading.moreTokens_cons] at ht
      rcases List.mem_cons.1 ht with rfl | ht
      · trivial
      rcases List.mem_append.1 ht with ht | ht
      · exact his i List.mem_cons_self t ht
      · exact ih (fun j hj => his j (List.mem_cons_of_mem i hj)) ht

private theorem spelled_of_mem_enclosed {opening closing : Mark} {ts : List Token}
    (hts : ∀ t ∈ ts, t.Spelled) (ht : t ∈ Token.mark opening :: (ts ++ [.mark closing])) :
    t.Spelled := by
  rcases List.mem_cons.1 ht with rfl | ht
  · trivial
  rcases List.mem_append.1 ht with ht | ht
  · exact hts t ht
  · obtain rfl := List.mem_singleton.1 ht
    trivial

private theorem Literal.spelled_of_mem_tokens {l : Literal} (hl : l.Writable) (ht : t ∈ l.tokens) :
    t.Spelled := by
  induction hl generalizing t with
  | string text =>
      obtain rfl := List.mem_singleton.1 ht
      trivial
  | int n =>
      obtain rfl := List.mem_singleton.1 ht
      trivial
  | bool b =>
      obtain rfl := List.mem_singleton.1 ht
      trivial
  | code hbody =>
      obtain rfl := List.mem_singleton.1 ht
      exact hbody
  | @list items _ ih =>
      rw [Literal.tokens, itemTokens_eq] at ht
      exact spelled_of_mem_enclosed (fun u hu => spelled_of_mem_moreTokens
        (fun i hi v hv => ih i hi hv) (List.mem_of_mem_tail hu)) ht
  | @object members _ ih =>
      rw [Literal.tokens, memberTokens_eq] at ht
      refine spelled_of_mem_enclosed (fun u hu => spelled_of_mem_moreTokens
        (fun m hm v hv => ?_) (List.mem_of_mem_tail hu)) ht
      rcases List.mem_cons.1 hv with rfl | hv
      · trivial
      · exact ih m hm hv

private theorem spelled_of_mem_properties (hps : WritableProperties context ps)
    (ht : t ∈ ps.flatMap fun p => p.node.tokens) : t.Spelled := by
  obtain ⟨p, hp, ht⟩ := List.mem_flatMap.1 ht
  rcases List.mem_cons.1 ht with rfl | ht
  · cases p.node.key.node <;> rfl
  · exact Literal.spelled_of_mem_tokens (hps p hp).2 ht

private theorem spelled_of_mem_blockTokens {opening closing : Mark}
    (hps : WritableProperties context ps) (ht : t ∈ blockTokens opening closing ps) : t.Spelled :=
  spelled_of_mem_enclosed (fun _ hu => spelled_of_mem_properties hps hu) ht

private theorem EventDefinition.spelled_of_mem_tokens {e : EventDefinition}
    (he : WritableProperties .event e.properties) (ht : t ∈ e.tokens) : t.Spelled := by
  rcases List.mem_cons.1 ht with rfl | ht
  · cases e.kind.node
    rfl
  · exact spelled_of_mem_blockTokens he ht

/-- All parts of writable definitions are spelled as they should be. -/
theorem Definitions.spelled_of_mem_parts {d : Definitions} (hd : d.Writable) {p : Part}
    (hp : p ∈ d.parts) : p.Spelled := by
  rcases List.mem_append.1 hp with hp | hp
  · obtain ⟨t, ht, rfl⟩ := List.mem_map.1 hp
    rcases List.mem_append.1 ht with ht | ht
    · cases hdefaults : d.defaults with
      | none =>
          rw [hdefaults] at ht
          exact absurd ht List.not_mem_nil
      | some ps =>
          rw [hdefaults] at ht
          rcases List.mem_cons.1 ht with rfl | ht
          · exact (by decide : isWord "defaults" = true)
          · exact spelled_of_mem_blockTokens (hd.defaults ps hdefaults) ht
    · rcases List.mem_pair.1 ht with rfl | rfl
      · exact (by decide : isWord "components" = true)
      · trivial
  rcases List.mem_append.1 hp with hp | hp
  · obtain ⟨c, hc, hp⟩ := List.mem_flatMap.1 hp
    rcases List.mem_cons.1 hp with rfl | hp
    · exact hd.componentTypes c hc
    · obtain ⟨t, ht, rfl⟩ := List.mem_map.1 hp
      exact spelled_of_mem_blockTokens (hd.components c hc) ht
  · obtain ⟨t, ht, rfl⟩ := List.mem_map.1 hp
    rcases List.mem_cons.1 ht with rfl | ht
    · trivial
    split at ht
    · exact absurd ht List.not_mem_nil
    rcases List.mem_cons.1 ht with rfl | ht
    · exact (by decide : isWord "events" = true)
    · refine spelled_of_mem_enclosed (fun u hu => ?_) ht
      obtain ⟨e, he, hu⟩ := List.mem_flatMap.1 hu
      exact EventDefinition.spelled_of_mem_tokens (hd.events e he) hu

end Spelled

/-! ## Derivations -/

/-- A written literal has a derivation, which means this literal. -/
theorem Literal.Writable.exists_tree {l : Literal} (hl : l.Writable) :
    ∃ v : ValueTree, v.tokens = l.tokens ∧ v.literal = l.unplaced := by
  induction hl with
  | string text => exact ⟨.string text, rfl, rfl⟩
  | int n => exact ⟨.int n, rfl, rfl⟩
  | bool b => exact ⟨.bool b, rfl, rfl⟩
  | @code body _ => exact ⟨.code body, rfl, rfl⟩
  | @list items _ ih =>
      obtain ⟨vs, hvs⟩ := exists_forall₂ ih
      cases hvs with
      | nil => exact ⟨.emptyList, rfl, rfl⟩
      | @cons i v items vs hv hvs =>
          refine ⟨.list v vs false, ?_, ?_⟩
          · rw [ValueTree.tokens_list, Literal.tokens, itemTokens_eq, Reading.moreTokens_cons,
              hv.1, moreTokens_eq_of_forall₂ (hvs.imp fun _ _ h => h.1)]
            rfl
          · rw [ValueTree.literal, ValueTree.itemLiterals_eq_map, Literal.unplaced,
              unplacedItems_eq_map, List.map_cons, hv.2]
            exact congrArg (fun more => Literal.list (_ :: more))
              (map_eq_map_of_forall₂ (hvs.imp fun _ _ h => congrArg nowhere h.2))
  | @object members _ ih =>
      have hmember : ∀ m ∈ members, ∃ w : MemberKey × ValueTree,
          ValueTree.tokensOfMember w = tokensOfMember m ∧
            ValueTree.literalOfMember w = (nowhere m.1.node, nowhere m.2.node.unplaced) := by
        intro m hm
        obtain ⟨v, htokens, hmeans⟩ := ih m hm
        refine ⟨(.string m.1.node, v), ?_, ?_⟩
        · rw [ValueTree.tokensOfMember, htokens]
          rfl
        · rw [ValueTree.literalOfMember, hmeans]
          rfl
      obtain ⟨ws, hws⟩ := exists_forall₂ hmember
      cases hws with
      | nil => exact ⟨.emptyObject, rfl, rfl⟩
      | @cons m w members ws hw hws =>
          obtain ⟨key, v⟩ := w
          refine ⟨.object key v ws false, ?_, ?_⟩
          · rw [ValueTree.tokens_object, Literal.tokens, memberTokens_eq, Reading.moreTokens_cons,
              hw.1, moreTokens_eq_of_forall₂ (hws.imp fun _ _ h => h.1)]
            rfl
          · rw [ValueTree.literal, ValueTree.memberLiterals_eq_map, Literal.unplaced,
              unplacedMembers_eq_map, List.map_cons, ← hw.2]
            exact congrArg (fun more => Literal.object (_ :: more))
              (map_eq_map_of_forall₂ (hws.imp fun _ _ h => h.2))

/-- Writable properties have a derivation. -/
theorem WritableProperties.exists_trees {context : Context} {ps : List (Spanned Property)}
    (hps : WritableProperties context ps) :
    ∃ ts : List (PropertyTree context),
      ts.flatMap PropertyTree.tokens = (ps.flatMap fun p => p.node.tokens) ∧
        PropertyTree.properties ts = unplacedProperties ps := by
  have hproperty : ∀ p ∈ ps, ∃ t : PropertyTree context,
      t.tokens = p.node.tokens ∧ t.property = p.node.unplaced := by
    intro p hp
    obtain ⟨hallowed, hliteral⟩ := hps p hp
    obtain ⟨v, htokens, hmeans⟩ := hliteral.exists_tree
    refine ⟨⟨p.node.key.node, hallowed, v, false⟩, ?_, ?_⟩
    · rw [PropertyTree.tokens, htokens]
      exact congrArg _ (List.append_nil _)
    · rw [PropertyTree.property, hmeans]
      rfl
  obtain ⟨ts, hts⟩ := exists_forall₂ hproperty
  exact ⟨ts, flatMap_eq_flatMap_of_forall₂ (hts.imp fun _ _ h => h.1),
    map_eq_map_of_forall₂ (hts.imp fun _ _ h => congrArg nowhere h.2)⟩

/-- A derivation of what a component definition is written with. -/
structure ComponentTree.Derives (c : ComponentDefinition) (t : ComponentTree) : Prop where
  tokens : t.tokens = c.parts.flatMap Part.tokens
  typeTokens : t.typeTokens = (Part.componentType c.componentType.node).tokens
  definition : t.definition = c.unplaced.untyped

/-- A writable component has a derivation. -/
theorem ComponentDefinition.exists_tree {c : ComponentDefinition}
    (htype : IsComponentType c.componentType.node)
    (hproperties : WritableProperties .component c.properties) :
    ∃ t : ComponentTree, t.Derives c := by
  obtain ⟨first, more, htext, hfirst, hmore⟩ := htype
  obtain ⟨ps, hps, hmeans⟩ := hproperties.exists_trees
  have htypeTokens : (Part.componentType c.componentType.node).tokens =
      .word first :: (furtherParts more).map TypePart.token := by
    rw [Part.tokens, Part.pieces, htext, pieces_joined hfirst hmore, filterMap_typePieces]
  refine ⟨⟨first, furtherParts more, ps⟩, ?_, htypeTokens.symm, ?_⟩
  · rw [ComponentTree.tokens, hps, ComponentDefinition.parts, List.flatMap_cons, htypeTokens,
      Part.flatMap_tokens_map_token]
    rfl
  · rw [ComponentTree.definition, hmeans]
    rfl

/-- A writable event has a derivation. -/
theorem EventDefinition.exists_tree {e : EventDefinition}
    (hproperties : WritableProperties .event e.properties) :
    ∃ t : EventTree, t.tokens = e.tokens ∧ t.definition = e.unplaced := by
  obtain ⟨ps, hps, hmeans⟩ := hproperties.exists_trees
  refine ⟨⟨e.kind.node, ps⟩, ?_, ?_⟩
  · rw [EventTree.tokens, hps]
    rfl
  · rw [EventTree.definition, hmeans]
    rfl

namespace Definitions

/-- The tokens of the block of defaults. -/
theorem Writable.exists_defaultTree {d : Definitions} (hd : d.Writable) :
    ∃ ps : Option (List (PropertyTree .defaults)),
      (ps.elim [] fun ps => sectionTokens "defaults" (ps.flatMap PropertyTree.tokens)) =
          (d.defaults.elim [] fun ps =>
            .word "defaults" :: blockTokens .braceOpen .braceClose ps.node) ∧
        (ps.map fun ps => nowhere (PropertyTree.properties ps)) = d.unplaced.untyped.defaults := by
  cases hdefaults : d.defaults with
  | none =>
      refine ⟨none, rfl, ?_⟩
      rw [untyped, unplaced, hdefaults]
      rfl
  | some ps =>
      obtain ⟨ts, hts, hmeans⟩ := (hd.defaults ps hdefaults).exists_trees
      refine ⟨some ts, ?_, ?_⟩
      · rw [Option.elim_some, hts]
        rfl
      · rw [untyped, unplaced, hdefaults, Option.map_some, hmeans]
        rfl

private theorem Writable.exists_eventTrees {d : Definitions} (hd : d.Writable) :
    ∃ es : Option (List EventTree),
      .mark .braceClose ::
          (es.elim [] fun es => sectionTokens "events" (es.flatMap EventTree.tokens)) =
        d.trailingTokens ∧
      ((es.getD []).map fun e => nowhere e.definition) = d.unplaced.untyped.events := by
  obtain ⟨es, hes⟩ := exists_forall₂ fun e he => EventDefinition.exists_tree (hd.events e he)
  have hmeans : (es.map fun e => nowhere e.definition) = d.unplaced.untyped.events :=
    map_eq_map_of_forall₂ (hes.imp fun _ _ h => congrArg nowhere h.2)
  rw [trailingTokens]
  cases hcases : d.events.isEmpty with
  | true =>
      refine ⟨none, rfl, ?_⟩
      rw [untyped, unplaced, List.isEmpty_iff.1 hcases]
      rfl
  | false =>
      refine ⟨some es, ?_, hmeans⟩
      rw [Option.elim_some, flatMap_eq_flatMap_of_forall₂ (hes.imp fun _ _ h => h.1)]
      rfl

private theorem flatMap_tokens_parts (d : Definitions) :
    d.parts.flatMap Part.tokens = d.leadingTokens ++
      ((d.components.flatMap fun c => c.node.parts.flatMap Part.tokens) ++ d.trailingTokens) := by
  rw [parts, List.flatMap_append, List.flatMap_append, Part.flatMap_tokens_map_token,
    Part.flatMap_tokens_map_token, List.flatMap_assoc]

end Definitions

/-- A derivation of what definitions are written with. -/
structure DefinitionsTree.Derives (d : Definitions) (t : DefinitionsTree) : Prop where
  tokens : t.tokens = d.parts.flatMap Part.tokens
  leading : t.defaultTokens.length + 2 = d.leadingTokens.length
  components : List.Forall₂ (fun c t => t.Derives c.node) d.components t.components
  definitions : t.definitions = d.unplaced.untyped

/-- Writable definitions have a derivation as a whole. -/
theorem Definitions.Writable.exists_tree {d : Definitions} (hd : d.Writable) :
    ∃ t : DefinitionsTree, t.Derives d := by
  obtain ⟨ts, hts⟩ := exists_forall₂ fun c hc =>
    ComponentDefinition.exists_tree (hd.componentTypes c hc) (hd.components c hc)
  obtain ⟨ps, hps, hdefaults⟩ := hd.exists_defaultTree
  obtain ⟨es, hes, hevents⟩ := hd.exists_eventTrees
  have hleading : (⟨ps, ts, es⟩ : DefinitionsTree).defaultTokens ++
      [.word "components", .mark .braceOpen] = d.leadingTokens :=
    congrArg (· ++ [Token.word "components", .mark .braceOpen]) hps
  refine ⟨⟨ps, ts, es⟩, ?_, ?_, hts, ?_⟩
  · rw [DefinitionsTree.tokens, Definitions.flatMap_tokens_parts, ← hleading, ← hes,
      DefinitionsTree.componentTokens,
      flatMap_eq_flatMap_of_forall₂ (hts.imp fun _ _ h => h.tokens)]
    simp only [sectionTokens, DefinitionsTree.eventTokens, List.append_assoc, List.cons_append,
      List.nil_append]
  · rw [← hleading, List.length_append]
    rfl
  · have hcomponents : (ts.map fun t => nowhere t.definition) = d.unplaced.untyped.components := by
      rw [Definitions.untyped, Definitions.unplaced, List.map_map]
      exact map_eq_map_of_forall₂ (hts.imp fun _ _ h => congrArg nowhere h.definition)
    rw [DefinitionsTree.definitions, hdefaults, hcomponents, hevents]

end InfraGraph.Definition
