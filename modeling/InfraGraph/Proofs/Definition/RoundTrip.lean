import InfraGraph.Proofs.Definition.Derivation
import InfraGraph.Proofs.Definition.Parts

/-!
# Definitions, written down and read back

The text that definitions are written as is cut into the tokens of their derivation, so it is read
as what the derivation means. The texts of component types are found by their spans: a component
type covers what it was written as.

## Main results

* `Definitions.lexemes_write` — the tokens of written definitions.
* `Definitions.writtenTypes_write` — the component types that are cut out of the text.
* `Definitions.read_write_unplaced` — definitions that are written down are read back.
-/

namespace InfraGraph.Definition

open Reading (Lexeme Piece Chunk Flawless textOf spaced followed lexemesFrom
  flatMap_eq_flatMap_of_forall₂)
open Text (width)

/-! ## Texts -/

namespace Definitions

/-- The pieces that parts are cut into, each with a space behind it. -/
def followedPieces (parts : List Part) : List (Piece Token) := followed (parts.map Part.pieces)

theorem followedPieces_append (parts others : List Part) :
    followedPieces (parts ++ others) = followedPieces parts ++ followedPieces others := by
  rw [followedPieces, List.map_append, Reading.followed_append]
  rfl

theorem map_token_followedPieces (offset : Nat) (parts : List Part) :
    (lexemesFrom offset (followedPieces parts)).map Lexeme.token = parts.flatMap Part.tokens := by
  rw [Reading.map_token_lexemesFrom, followedPieces, Reading.filterMap_token?_followed,
    List.flatMap_map]
  rfl

/-- Definitions are written part by part, with a space between two parts. -/
theorem write_eq (d : Definitions) : d.write = textOf (spaced (d.parts.map Part.pieces)) := by
  rw [write, Reading.textOf_spaced, List.map_map]
  exact congrArg _ (List.map_congr_left fun p _ => p.textOf_pieces.symm)

/-- Written definitions are cut into the lexemes of their parts. -/
theorem lexemes_write {d : Definitions} (hd : d.Writable) :
    Token.lexemes d.write = .ok (lexemesFrom 0 (spaced (d.parts.map Part.pieces))) := by
  have hchunk : ∀ chunk ∈ d.parts.map Part.pieces, Chunk Token.cut chunk ∧ Flawless chunk := by
    intro chunk hchunk
    obtain ⟨p, hp, rfl⟩ := List.mem_map.1 hchunk
    have hspelled := spelled_of_mem_parts hd hp
    exact ⟨Part.chunk hspelled, Part.flawless hspelled⟩
  rw [Token.lexemes, write_eq]
  exact Reading.lexemes_of_cutsOff Token.cut_faithful
    (Reading.cutsOff_spaced (fun chunk h => (hchunk chunk h).1) Reading.ends_nil)
    (Reading.flawless_spaced fun chunk h => (hchunk chunk h).2)

/-! ## Component types -/

/-- The type that is cut out of the text for a component is the one that it was written with. -/
theorem writtenType_eq {c : ComponentDefinition} {t : ComponentTree} (ht : t.Derives c)
    (htype : IsComponentType c.componentType.node) (before behind : List Char) :
    Grammar.writtenType (before ++ (textOf (followedPieces c.parts) ++ behind)) t
      (lexemesFrom (width before) (followedPieces c.parts)) = c.componentType.node := by
  obtain ⟨first, more, htext, hfirst, hmore⟩ := htype
  have hpieces : (Part.componentType c.componentType.node).pieces = typePieces first more := by
    rw [Part.pieces, htext, pieces_joined hfirst hmore]
  obtain ⟨rest, hrest⟩ : ∃ rest, followedPieces c.parts = typePieces first more ++ rest := by
    rw [followedPieces, ComponentDefinition.parts, List.map_cons, Reading.followed_cons, hpieces]
    exact ⟨_, rfl⟩
  have hlength : t.typeTokens.length =
      (lexemesFrom (width before) (typePieces first more)).length := by
    rw [← List.length_map (f := Lexeme.token), Reading.map_token_lexemesFrom, ht.typeTokens,
      Part.tokens, hpieces]
  rw [Grammar.writtenType, hrest, Reading.lexemesFrom_append, hlength, List.take_left,
    coveredBy_typePieces, Reading.textOf_append, textOf_typePieces, List.append_assoc,
    Grammar.typeText, Text.slice_append, intercalate_words_joined hfirst hmore, ← htext,
    String.ofList_toList]

private theorem writtenTypes_eq {cs : List (Spanned ComponentDefinition)} {ts : List ComponentTree}
    (hts : List.Forall₂ (fun c t => t.Derives c.node) cs ts)
    (hcs : ∀ c ∈ cs, IsComponentType c.node.componentType.node) (before behind : List Char) :
    Grammar.writtenTypes
        (before ++ (textOf (followedPieces (cs.flatMap fun c => c.node.parts)) ++ behind)) ts
        (lexemesFrom (width before) (followedPieces (cs.flatMap fun c => c.node.parts))) =
      cs.map fun c => c.node.componentType.node := by
  induction hts generalizing before with
  | nil => rfl
  | @cons c t cs ts ht _ ih =>
      have hlength : t.tokens.length =
          (lexemesFrom (width before) (followedPieces c.node.parts)).length := by
        rw [← List.length_map (f := Lexeme.token), map_token_followedPieces, ht.tokens]
      have hfirst := writtenType_eq ht (hcs c List.mem_cons_self) before
        (textOf (followedPieces (cs.flatMap fun c => c.node.parts)) ++ behind)
      have hmore := ih (fun d hd => hcs d (List.mem_cons_of_mem c hd))
        (before ++ textOf (followedPieces c.node.parts))
      rw [Text.width_append, List.append_assoc] at hmore
      rw [List.flatMap_cons, followedPieces_append, Reading.textOf_append, List.append_assoc,
        Reading.lexemesFrom_append, Grammar.writtenTypes, Reading.locate, hlength, List.take_left,
        List.drop_left, List.map_cons, List.map_cons, hfirst]
      exact congrArg _ hmore

/-- The components stand between what leads to them and what follows them. -/
theorem spaced_parts (d : Definitions) :
    spaced (d.parts.map Part.pieces) =
      followedPieces (d.leadingTokens.map .token) ++
        (followedPieces (d.components.flatMap fun c => c.node.parts) ++
          spaced ((d.trailingTokens.map Part.token).map Part.pieces)) := by
  rw [parts, ← List.append_assoc, List.map_append,
    Reading.spaced_append _ (by simp [trailingTokens]), ← List.append_assoc,
    ← followedPieces_append]
  rfl

/-- The types that are read back are those that were written. -/
theorem writtenTypes_write {d : Definitions} (hd : d.Writable) {t : DefinitionsTree}
    (ht : t.Derives d) :
    Grammar.writtenTypes d.write t.components
      ((lexemesFrom 0 (spaced (d.parts.map Part.pieces))).drop (t.defaultTokens.length + 2)) =
      d.types := by
  have hleading := map_token_followedPieces 0 (d.leadingTokens.map .token)
  rw [Part.flatMap_tokens_map_token] at hleading
  have hlength := congrArg List.length hleading
  rw [List.length_map] at hlength
  have hcomponents (offset : Nat) :
      (lexemesFrom offset (followedPieces (d.components.flatMap fun c => c.node.parts))).map
        Lexeme.token = t.components.flatMap ComponentTree.tokens := by
    rw [map_token_followedPieces, List.flatMap_assoc]
    exact (flatMap_eq_flatMap_of_forall₂ (ht.components.imp fun _ _ h => h.tokens)).symm
  rw [write_eq, spaced_parts, Reading.lexemesFrom_append, ht.leading, ← hlength, List.drop_left,
    Reading.lexemesFrom_append, Grammar.writtenTypes, Reading.locate_append (hcomponents _),
    Reading.textOf_append, Reading.textOf_append, Nat.zero_add]
  exact writtenTypes_eq ht.components hd.componentTypes _ _

/-! ## Reading back -/

/-- Definitions that are written down are read back as they are, places aside. -/
theorem read_write_unplaced {d : Definitions} (hd : d.Writable) :
    ∃ e, read d.write = .ok e ∧ e.unplaced = d.unplaced := by
  obtain ⟨t, ht⟩ := hd.exists_tree
  have htokens : t.tokens =
      (lexemesFrom 0 (spaced (d.parts.map Part.pieces))).map Lexeme.token := by
    rw [Reading.map_token_lexemesFrom, Reading.filterMap_token?_spaced, List.flatMap_map,
      ht.tokens]
    rfl
  obtain ⟨e, hread, huntyped, htypes⟩ := read_of_tree (lexemes_write hd) htokens
  rw [writtenTypes_write hd ht] at htypes
  exact ⟨e, hread, unplaced_eq_of_untyped (huntyped.trans ht.definitions) htypes⟩

/-- A negative number, a quotation, a member, code, and a component type with both joints. -/
def mixedDefinitions : Definitions where
  defaults := some (nowhere [nowhere ⟨nowhere .layer, nowhere (.string "say \"hi\"")⟩])
  components := [nowhere ⟨nowhere "Virtual.Host of", [nowhere ⟨nowhere .labels, nowhere (.list
    [nowhere (.int (-8)), nowhere (.object [(nowhere "a#", nowhere (.bool true))])])⟩]⟩]
  events := [nowhere ⟨nowhere .elementPropertiesChanged,
    [nowhere ⟨nowhere .processor, nowhere (.code "\x60x")⟩]⟩]

theorem read_write_unplaced_mixedDefinitions :
    mixedDefinitions.write =
        ("defaults \x7b layer \"say \\\"hi\\\"\" \x7d " ++
          "components \x7b Virtual.Host of ( labels [ -8 , \x7b \"a#\" true \x7d ] ) \x7d " ++
          "events \x7b ElementPropertiesChanged ( processor \x60\x60\x60\x60x" ++
          "\x60\x60\x60 ) \x7d").toList ∧
      ∃ e, read mixedDefinitions.write = .ok e ∧ e.unplaced = mixedDefinitions.unplaced := by
  have hdefaults : ∀ ps ∈ mixedDefinitions.defaults, WritableProperties .defaults ps.node := by
    intro ps hps
    cases Option.mem_some.1 hps
    exact List.forall_mem_singleton.2 ⟨rfl, .string _⟩
  have htypes : ∀ c ∈ mixedDefinitions.components, IsComponentType c.node.componentType.node :=
    List.forall_mem_singleton.2 ⟨"Virtual", [(.dot, "Host"), (.space, "of")], rfl, rfl, by decide⟩
  have hcomponents : ∀ c ∈ mixedDefinitions.components,
      WritableProperties .component c.node.properties := by
    refine List.forall_mem_singleton.2 (List.forall_mem_singleton.2 ⟨rfl, .list ?_⟩)
    exact List.forall_mem_cons.2 ⟨.int _, List.forall_mem_singleton.2
      (.object (List.forall_mem_singleton.2 (.bool true)))⟩
  have hevents : ∀ e ∈ mixedDefinitions.events, WritableProperties .event e.node.properties :=
    List.forall_mem_singleton.2 (List.forall_mem_singleton.2
      ⟨rfl, .code ⟨fun h => absurd h.length_le (by decide), by decide⟩⟩)
  exact ⟨by decide +kernel, read_write_unplaced ⟨hdefaults, htypes, hcomponents, hevents⟩⟩

end Definitions

end InfraGraph.Definition
