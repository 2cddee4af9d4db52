import InfraGraph.Proofs.Definition.Completeness
import InfraGraph.Proofs.Definition.Soundness
import InfraGraph.Proofs.Definition.Unambiguous

/-!
# Reading is deriving

A source text whose tokens are known is read if and only if these have a derivation. The derivation
is the only one then, and what is read is what it means.

## Main results

* `Definitions.read_of_tree` — a text with the tokens of a tree is read as the tree means it; the
  texts of its component types are cut out of the text.
* `Definitions.exists_tree_of_read` — a text that is read has the tokens of a tree.
* `Definitions.read_iff_derivable` — both, with the derivation being unique.
-/

namespace InfraGraph.Definition.Definitions

open Reading (Lexeme)
open Reading.Reader (readAll_eq_ok_iff)

variable {text : List Char} {xs : List (Lexeme Token)}

/-- A text is read if the reader takes all of its lexemes. -/
theorem read_eq_ok_iff (hxs : Token.lexemes text = .ok xs) {d : Definitions} :
    read text = .ok d ↔
      Reading.Reader.result (Grammar.definitions text (xs.length + 2)) xs = some (d, []) := by
  rw [read, hxs]
  exact readAll_eq_ok_iff

/-- A text with a derivation is read as its meaning. -/
theorem read_of_tree (hxs : Token.lexemes text = .ok xs) {t : DefinitionsTree}
    (ht : t.tokens = xs.map Lexeme.token) :
    ∃ d, read text = .ok d ∧ d.unplaced.untyped = t.definitions ∧
      d.types =
        Grammar.writtenTypes text t.components (xs.drop (t.defaultTokens.length + 2)) := by
  obtain ⟨d, hresult, hmeans, hcomponents⟩ :=
    Grammar.result_definitions ht.symm (Nat.le_add_right xs.length 2)
  refine ⟨d, (read_eq_ok_iff hxs).2 hresult, hmeans, ?_⟩
  have htypes := congrArg (List.map Spanned.node) hcomponents
  rw [List.map_map, List.map_map] at htypes
  rw [Grammar.writtenTypes_eq_map]
  exact htypes

/-- The component types of a text that is read, with the spans of their lexemes. -/
theorem componentTypes_of_tree (hxs : Token.lexemes text = .ok xs) {t : DefinitionsTree}
    (ht : t.tokens = xs.map Lexeme.token) {d : Definitions} (hd : read text = .ok d) :
    d.components.map (fun c => c.node.componentType) =
      (Grammar.typeLexemes t.components (xs.drop (t.defaultTokens.length + 2))).map
        (Grammar.typeAt text) := by
  obtain ⟨d', hresult, -, hcomponents⟩ :=
    Grammar.result_definitions ht.symm (Nat.le_add_right xs.length 2)
  have hd' := (read_eq_ok_iff hxs).2 hresult
  obtain rfl := Except.ok.inj (hd.symm.trans hd')
  exact hcomponents

/-- A text that is read has a derivation with this meaning. -/
theorem exists_tree_of_read (hxs : Token.lexemes text = .ok xs) {d : Definitions}
    (hd : read text = .ok d) :
    ∃ t : DefinitionsTree, t.tokens = xs.map Lexeme.token ∧
      d.unplaced.untyped = t.definitions := by
  obtain ⟨ts, hts, t, rfl, hmeans⟩ :=
    Grammar.gives_definitions xs d [] ((read_eq_ok_iff hxs).1 hd)
  exact ⟨t, by rw [hts, List.map_nil, List.append_nil], hmeans⟩

/-- A text is read if and only if its tokens have a derivation. There is one derivation at most, and
what is read is what it means, places and texts of component types aside. -/
theorem read_iff_derivable (hxs : Token.lexemes text = .ok xs) :
    ((∃ d, read text = .ok d) ↔ ∃ t : DefinitionsTree, t.tokens = xs.map Lexeme.token) ∧
      (∀ t u : DefinitionsTree, t.tokens = xs.map Lexeme.token →
        u.tokens = xs.map Lexeme.token → t = u) ∧
      ∀ (t : DefinitionsTree) (d : Definitions), t.tokens = xs.map Lexeme.token →
        read text = .ok d → d.unplaced.untyped = t.definitions := by
  refine ⟨⟨?_, ?_⟩, fun t u ht hu => DefinitionsTree.tokens_injective (ht.trans hu.symm), ?_⟩
  · rintro ⟨d, hd⟩
    obtain ⟨t, ht, -⟩ := exists_tree_of_read hxs hd
    exact ⟨t, ht⟩
  · rintro ⟨t, ht⟩
    obtain ⟨d, hd, -⟩ := read_of_tree hxs ht
    exact ⟨d, hd⟩
  · intro t d ht hd
    obtain ⟨u, hu, hmeans⟩ := exists_tree_of_read hxs hd
    rw [hmeans, DefinitionsTree.tokens_injective (ht.trans hu.symm)]

/-- Whether tokens can be seen to be the same; for numbers with a fraction that cannot be seen. -/
def sameTokens : List Token → List Token → Bool
  | [], [] => true
  | .mark m :: ts, .mark n :: us => m == n && sameTokens ts us
  | .bool b :: ts, .bool c :: us => b == c && sameTokens ts us
  | .word s :: ts, .word t :: us => s == t && sameTokens ts us
  | .string s :: ts, .string t :: us => s == t && sameTokens ts us
  | .int n :: ts, .int m :: us => n == m && sameTokens ts us
  | .code s :: ts, .code t :: us => s == t && sameTokens ts us
  | _, _ => false

private theorem eq_of_sameTokens {ts us : List Token} (h : sameTokens ts us = true) : ts = us := by
  fun_induction sameTokens ts us with
  | case1 => rfl
  | case8 => cases h
  | _ =>
      rename_i ih
      rw [Bool.and_eq_true, beq_iff_eq] at h
      rw [h.1, ih h.2]

/-- A text with commas where they may be left out. -/
def commaText : List Char :=
  ("defaults \x7blayer network,\x7d " ++
    "components \x7bVirtual.Host(name 'web' labels [8, true,])\x7d").toList

/-- The derivation of `commaText`. -/
def commaTree : DefinitionsTree where
  defaults := some [⟨.layer, rfl, .word "network", true⟩]
  components := [⟨"Virtual", [.dot, .word "Host"], [⟨.name, rfl, .string "web", false⟩,
    ⟨.labels, rfl, .list (.int 8) [.bool true] true, false⟩]⟩]
  events := none

theorem read_iff_derivable_commaText :
    ∃ d, read commaText = .ok d ∧ d.unplaced.untyped = commaTree.definitions := by
  have hsame : (Token.lexemes commaText).toOption.any
      (fun xs => sameTokens commaTree.tokens (xs.map Lexeme.token)) = true := by
    decide +kernel
  cases hxs : Token.lexemes commaText with
  | error faults =>
      rw [hxs] at hsame
      cases hsame
  | ok xs =>
      rw [hxs] at hsame
      have htree : commaTree.tokens = xs.map Lexeme.token := eq_of_sameTokens hsame
      obtain ⟨hread, -, hmeans⟩ := read_iff_derivable hxs
      obtain ⟨d, hd⟩ := hread.2 ⟨commaTree, htree⟩
      exact ⟨d, hd, hmeans commaTree d htree hd⟩

end InfraGraph.Definition.Definitions
