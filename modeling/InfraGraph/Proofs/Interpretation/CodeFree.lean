import InfraGraph.Interpretation.Literal
import InfraGraph.Proofs.Effect
import InfraGraph.Proofs.Interpretation.Agreement

/-!
# Definitions without code

A literal without code means its constant, wherever it is looked at: nothing of the graph, of the
number of the repetition or of the subject can show in it. So nothing of these shows in a property
that is looked up, and a component or event without code is the same wherever it is built.

## Main results

* `evaluate_eq_constant` — a literal without code is evaluated to its constant.
* `Layers.CodeFreeUnder.agree` — under a keyword without code, layers are the same everywhere.
* `Layers.CodeFreeUnder.steady_stringOr` and the others like it — looking such a property up leaves
  the subject alone.
* `Layers.CodeFree.buildComponent_eq` — without code, the same component is built everywhere.
-/

namespace InfraGraph

open Definition (Literal Property Spanned Definitions)

namespace Definition

namespace Literal

mutual

/-- Whether there is no code in a literal, at any depth. -/
def isCodeFree : Literal → Bool
  | .code _ => false
  | .list items => codeFreeItems items
  | .object members => codeFreeMembers members
  | _ => true

/-- Whether there is no code in the items of a list. -/
def codeFreeItems : List (Spanned Literal) → Bool
  | [] => true
  | ⟨_, item⟩ :: rest => isCodeFree item && codeFreeItems rest

/-- Whether there is no code in the members of an object. -/
def codeFreeMembers : List (Spanned String × Spanned Literal) → Bool
  | [] => true
  | (_, ⟨_, value⟩) :: rest => isCodeFree value && codeFreeMembers rest

end

end Literal

/-- There is no code in any of the properties. -/
def CodeFree (properties : List (Spanned Property)) : Prop :=
  ∀ p ∈ properties, p.node.literal.node.isCodeFree = true

/-- There is no code in what a source text defines. -/
structure Definitions.CodeFree (d : Definitions) : Prop where
  defaults : ∀ properties, d.defaults = some properties →
    Definition.CodeFree properties.node
  components : ∀ c ∈ d.components, Definition.CodeFree c.node.properties
  events : ∀ e ∈ d.events, Definition.CodeFree e.node.properties

end Definition

namespace Interpretation

open Block (Surroundings Subject)
open Effect

/-! ## Literals -/

mutual

/-- A literal without code evaluates to its constant and does nothing else. -/
theorem evaluate_eq_constant (around : Surroundings) (key : Keyword) (source : String) :
    ∀ l : Literal, l.isCodeFree = true →
      evaluate around key source l = pure l.constant
  | .string _, _ => rfl
  | .int _, _ => rfl
  | .float _, _ => rfl
  | .bool _, _ => rfl
  | .code _, h => by simp [Literal.isCodeFree] at h
  | .list items, h => by
      have hitems : Literal.codeFreeItems items = true := by
        simpa [Literal.isCodeFree] using h
      rw [evaluate, evaluateItems_eq_constant around key source items hitems, pure_bind,
        Literal.constant]
  | .object members, h => by
      have hmembers : Literal.codeFreeMembers members = true := by
        simpa [Literal.isCodeFree] using h
      rw [evaluate, evaluateMembers_eq_constant around key source [] members hmembers,
        pure_bind, Literal.constant]

theorem evaluateItems_eq_constant (around : Surroundings) (key : Keyword)
    (source : String) : ∀ items : List (Spanned Literal),
      Literal.codeFreeItems items = true →
        evaluateItems around key source items = pure (Literal.constantItems items)
  | [], _ => rfl
  | ⟨_, item⟩ :: rest, h => by
      rw [Literal.codeFreeItems, Bool.and_eq_true] at h
      rw [evaluateItems, evaluate_eq_constant around key source item h.1, pure_bind,
        evaluateItems_eq_constant around key source rest h.2, pure_bind,
        Literal.constantItems]

theorem evaluateMembers_eq_constant (around : Surroundings) (key : Keyword)
    (source : String) (done : Entries Value) :
    ∀ members : List (Spanned String × Spanned Literal),
      Literal.codeFreeMembers members = true →
        evaluateMembers around key source done members =
          pure (Literal.constantMembers done members)
  | [], _ => rfl
  | (_, ⟨_, value⟩) :: rest, h => by
      rw [Literal.codeFreeMembers, Bool.and_eq_true] at h
      rw [evaluateMembers, evaluate_eq_constant around key source value h.1, pure_bind,
        evaluateMembers_eq_constant around key source _ rest h.2,
        Literal.constantMembers]

end

/-! ## Properties -/

/-- There is no code in either layer. -/
structure Layers.CodeFree (layers : Layers) : Prop where
  own : ∀ p ∈ layers.own, p.literal.node.isCodeFree = true
  defaults : ∀ p ∈ layers.defaults, p.literal.node.isCodeFree = true

/-- Under a keyword, there is no code in either layer. -/
structure Layers.CodeFreeUnder (layers : Layers) (key : Keyword) : Prop where
  own : ∀ l, literal? layers.own key = some l → l.isCodeFree = true
  defaults : ∀ l, literal? layers.defaults key = some l → l.isCodeFree = true

private theorem exists_mem_of_literal? {properties : List Property} {key : Keyword} {l : Literal}
    (hl : literal? properties key = some l) :
    ∃ p ∈ properties, p.key.node = key ∧ p.literal.node = l := by
  obtain ⟨p, hp, rfl⟩ := Option.map_eq_some_iff.1 hl
  have hmem := List.mem_of_find?_eq_some hp
  have hkey := List.find?_some hp
  exact ⟨p, List.mem_reverse.1 hmem, by simpa using hkey, rfl⟩

private theorem isCodeFree_of_literal? {properties : List Property} {key : Keyword} {l : Literal}
    (hfree : ∀ p ∈ properties, p.literal.node.isCodeFree = true)
    (hl : literal? properties key = some l) : l.isCodeFree = true := by
  obtain ⟨p, hp, _, rfl⟩ := exists_mem_of_literal? hl
  exact hfree p hp

/-- Without code, the same value stands under a keyword wherever it is looked at. -/
theorem exists_layerValue?_eq_pure {properties : List Property} {key : Keyword}
    (hfree : ∀ l, literal? properties key = some l → l.isCodeFree = true) :
    ∃ v, ∀ around source, layerValue? around properties source key = pure v := by
  unfold layerValue?
  cases hl : literal? properties key with
  | none => exact ⟨none, fun _ _ => rfl⟩
  | some l =>
      refine ⟨if l.constant.isNull then none else some l.constant, fun around source => ?_⟩
      dsimp only
      rw [evaluate_eq_constant around key source l (hfree l hl), pure_bind]

namespace Layers

/-! ## Layers without code under a keyword -/

namespace CodeFreeUnder

variable {layers : Layers} {key : Keyword} (hfree : layers.CodeFreeUnder key)
  (around elsewhere : Surroundings)

include hfree

private theorem own_ne_code (code : String) : literal? layers.own key ≠ some (.code code) := by
  intro hl
  have hcode := hfree.own _ hl
  simp [Literal.isCodeFree] at hcode

private theorem defaults_ne_code (code : String) :
    literal? layers.defaults key ≠ some (.code code) := by
  intro hl
  have hcode := hfree.defaults _ hl
  simp [Literal.isCodeFree] at hcode

/-- Layers without code agree with themselves wherever they are looked at. -/
theorem agree : layers.Agree around elsewhere layers key := by
  obtain ⟨own, hown⟩ := exists_layerValue?_eq_pure hfree.own
  obtain ⟨fallback, hdefaults⟩ := exists_layerValue?_eq_pure hfree.defaults
  exact ⟨rfl, fun source => by rw [hown, hown], fun source => by rw [hdefaults, hdefaults]⟩

/-- Looking at a value that is the same everywhere leaves the subject alone. -/
theorem related_steady :
    layers.Related (fun _ w _ => Steady w) around around layers key := by
  obtain ⟨own, hown⟩ := exists_layerValue?_eq_pure hfree.own
  obtain ⟨fallback, hdefaults⟩ := exists_layerValue?_eq_pure hfree.defaults
  refine ⟨rfl, ?_, ?_⟩
  · rw [own?, hown]
    exact .pure own
  · rw [default?, hdefaults]
    exact .pure fallback

theorem steady_stringOr (fallback : String) :
    Steady (layers.stringOr around key fallback) :=
  (hfree.related_steady around).stringOr Steady.compatible fallback

theorem steady_mergeStrings : Steady (layers.mergeStrings around key) :=
  (hfree.related_steady around).mergeStrings Steady.compatible

end CodeFreeUnder

/-- What is no code block is not run. -/
theorem runProcessor_eq_pure (around : Surroundings) {properties : List Property}
    (source : String) {key : Keyword}
    (hcode : ∀ code, literal? properties key ≠ some (.code code)) :
    runProcessor around properties source key = pure () := by
  unfold runProcessor
  split
  · rename_i code hl
    exact absurd hl (hcode code)
  · rfl

/-! ## Layers without any code -/

/-- Layers are free of code if their properties and defaults are. -/
theorem codeFree_of {own : List (Spanned Property)}
    {defaults : Option (List (Spanned Property))} {element : String}
    (hown : Definition.CodeFree own)
    (hdefaults : ∀ properties, defaults = some properties →
      Definition.CodeFree properties) :
    (Layers.of own defaults element).CodeFree where
  own p hp := by
    obtain ⟨q, hq, rfl⟩ := List.mem_map.1 hp
    exact hown q hq
  defaults p hp := by
    obtain ⟨q, hq, rfl⟩ := List.mem_map.1 hp
    cases defaults with
    | none => cases hq
    | some properties => exact hdefaults properties rfl q hq

namespace CodeFree

variable {layers : Layers} (hfree : layers.CodeFree) (around elsewhere : Surroundings)

include hfree

theorem withDefaultKeys (keys : List Keyword) : (layers.withDefaultKeys keys).CodeFree where
  own := hfree.own
  defaults p hp := hfree.defaults p (List.mem_filter.1 hp).1

theorem under (key : Keyword) : layers.CodeFreeUnder key where
  own _ hl := isCodeFree_of_literal? hfree.own hl
  defaults _ hl := isCodeFree_of_literal? hfree.defaults hl

/-- There are no processors to run. -/
theorem runProcessors_eq_pure (ownKey defaultKey : Keyword) :
    layers.runProcessors around ownKey defaultKey = pure () := by
  unfold runProcessors
  rw [runProcessor_eq_pure around _ (hfree.under ownKey).own_ne_code, pure_bind,
    runProcessor_eq_pure around _ (hfree.under defaultKey).defaults_ne_code]

theorem named (element : String) : (layers.named element).CodeFree :=
  ⟨hfree.own, hfree.defaults⟩

/-! ## Elements -/

/-- Components without code are built alike everywhere. -/
theorem buildComponent_eq (componentType : String) :
    buildComponent around layers componentType =
      buildComponent elsewhere layers componentType := by
  refine buildComponent_congr (fun key _ _ => (hfree.under key).agree around elsewhere)
    (fun element => ?_) componentType
  rw [(hfree.named element).runProcessors_eq_pure, (hfree.named element).runProcessors_eq_pure]

/-- Events without code are built alike where identifiers mean the same. -/
theorem buildEvent_eq
    (hgraph : around.graph.resolveIdentifiers = elsewhere.graph.resolveIdentifiers) :
    buildEvent around layers = buildEvent elsewhere layers := by
  refine buildEvent_congr (fun key _ _ => (hfree.under key).agree around elsewhere)
    (fun element => ?_) hgraph
  rw [(hfree.named element).runProcessors_eq_pure, (hfree.named element).runProcessors_eq_pure]

/-- Components without code are repeated as often in every graph. -/
theorem repetitions_eq (g h : Graph) (componentType : String) :
    repetitions g layers componentType = repetitions h layers componentType :=
  repetitions_congr ((hfree.under .repetition).agree ⟨g, 0⟩ ⟨h, 0⟩) componentType

end CodeFree

end Layers

end Interpretation

end InfraGraph
