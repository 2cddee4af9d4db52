import InfraGraph.Interpretation.Component
import InfraGraph.Interpretation.Event
import InfraGraph.Proofs.Definition.Placement
import InfraGraph.Proofs.Interpretation.Related

/-!
# Layers that agree under a keyword

A property is looked up under one keyword and in two layers, so all that can show in it is what the
two literals under that keyword come to. `Layers.Agree` says that they come to the same, wherever
the two pairs of layers are looked at; what is built from properties whose layers agree is then the
same too. Places of literals never show.

## Main results

* `evaluate_unplaced` — where the parts of a literal stand makes no difference.
* `Layers.Agree.lookup?` and the others like it — layers that agree hold the same properties.
* `buildComponent_congr`, `buildEvent_congr` — so the elements built from them are the same.
-/

namespace InfraGraph.Interpretation

open Block (Surroundings Subject)
open Definition (Literal Property Spanned ComponentDefinition EventDefinition)
open Effect

/-! ## Places -/

mutual

/-- The place of a literal does not matter to its value. -/
theorem evaluate_unplaced (around : Surroundings) (key : Keyword) (source : String) :
    ∀ l : Literal, evaluate around key source l.unplaced = evaluate around key source l
  | .string _ => rfl
  | .int _ => rfl
  | .float _ => rfl
  | .bool _ => rfl
  | .code _ => rfl
  | .list items => by
      have hitems := evaluateItems_unplaced around key source items
      rw [Literal.unplaced, evaluate, evaluate, hitems]
  | .object members => by
      have hmembers := evaluateMembers_unplaced around key source [] members
      rw [Literal.unplaced, evaluate, evaluate, hmembers]

theorem evaluateItems_unplaced (around : Surroundings) (key : Keyword) (source : String) :
    ∀ items : List (Spanned Literal),
      evaluateItems around key source (Definition.unplacedItems items) =
        evaluateItems around key source items
  | [] => rfl
  | ⟨_, item⟩ :: rest => by
      have hitem := evaluate_unplaced around key source item
      have hrest := evaluateItems_unplaced around key source rest
      rw [Definition.unplacedItems, Definition.nowhere, evaluateItems, evaluateItems, hitem,
        hrest]

theorem evaluateMembers_unplaced (around : Surroundings) (key : Keyword) (source : String)
    (done : Entries Value) : ∀ members : List (Spanned String × Spanned Literal),
      evaluateMembers around key source done (Definition.unplacedMembers members) =
        evaluateMembers around key source done members
  | [] => rfl
  | (⟨_, name⟩, ⟨_, value⟩) :: rest => by
      have hvalue := evaluate_unplaced around key source value
      have hrest := fun v =>
        evaluateMembers_unplaced around key source (Entries.insert done name v) rest
      rw [Definition.unplacedMembers, Definition.nowhere, Definition.nowhere, evaluateMembers,
        evaluateMembers, hvalue]
      simp only [hrest]

end

/-! ## Looking up -/

namespace Layers

/-- Under a keyword, each of two layers comes to the same in two places. -/
structure Agree (around elsewhere : Surroundings) (layers others : Layers) (key : Keyword) :
    Prop where
  element : layers.element = others.element
  own : ∀ source, layerValue? around layers.own source key =
    layerValue? elsewhere others.own source key
  defaults : ∀ source, layerValue? around layers.defaults source key =
    layerValue? elsewhere others.defaults source key

namespace Agree

variable {around elsewhere : Surroundings} {layers others : Layers} {key : Keyword}
  (h : Agree around elsewhere layers others key)

include h

/-- Layers that agree do so under another name of the element. -/
theorem named (element : String) :
    Agree around elsewhere (layers.named element) (others.named element) key :=
  ⟨rfl, h.own, h.defaults⟩

/-- Layers that agree are related by equality. -/
theorem related : layers.Related (fun _ v w => v = w) around elsewhere others key where
  element := h.element
  own := by
    rw [Layers.own?, Layers.own?, h.own, h.element]
  default := h.defaults defaultSource

theorem lookup? : layers.lookup? around key = others.lookup? elsewhere key :=
  h.related.lookup? compatible_eq

theorem value? : layers.value? around key = others.value? elsewhere key := by
  unfold Layers.value?
  rw [h.lookup?]

theorem string? : layers.string? around key = others.string? elsewhere key :=
  h.related.string? compatible_eq

theorem stringOr (fallback : String) :
    layers.stringOr around key fallback = others.stringOr elsewhere key fallback :=
  h.related.stringOr compatible_eq fallback

theorem requireString : layers.requireString around key = others.requireString elsewhere key :=
  h.related.requireString compatible_eq

theorem intOr (fallback : Int64) :
    layers.intOr around key fallback = others.intOr elsewhere key fallback :=
  h.related.intOr compatible_eq fallback

theorem mergeMap : layers.mergeMap around key = others.mergeMap elsewhere key :=
  h.related.mergeMap compatible_eq

theorem mergeStrings : layers.mergeStrings around key = others.mergeStrings elsewhere key :=
  h.related.mergeStrings compatible_eq

end Agree

end Layers

/-! ## What is written -/

/-- What is written in a list of properties: keywords and literals in order, wherever they stand. -/
def written (properties : List Property) : List (Keyword × Literal) :=
  properties.map fun p => (p.key.node, p.literal.node.unplaced)

/-- Under some of the keywords, the same is written in both lists, in the same order. -/
def SameUnder (keys : Keyword → Bool) (properties others : List Property) : Prop :=
  (written properties).filter (fun e => keys e.1) = (written others).filter fun e => keys e.1

section Written

variable {keys : Keyword → Bool} {properties others : List Property} {key : Keyword}

private theorem literal?_written (properties : List Property) (key : Keyword) :
    (literal? properties key).map Literal.unplaced =
      ((written properties).reverse.find? fun e => e.1 == key).map Prod.snd := by
  have hreverse : (written properties).reverse =
      properties.reverse.map fun p => (p.key.node, p.literal.node.unplaced) :=
    List.map_reverse.symm
  rw [hreverse, List.find?_map, literal?, Option.map_map, Option.map_map]
  rfl

/-- The other keywords do not matter for the last literal under one of these. -/
theorem SameUnder.literal? (h : SameUnder keys properties others) (hkey : keys key = true) :
    (literal? properties key).map Literal.unplaced =
      (literal? others key).map Literal.unplaced := by
  have hfilter : ∀ entries : List (Keyword × Literal),
      (entries.reverse.find? fun e => e.1 == key) =
        ((entries.filter fun e => keys e.1).reverse.find? fun e => e.1 == key) := by
    intro entries
    rw [← List.filter_reverse, List.find?_filter]
    congr 1
    funext e
    by_cases he : e.1 = key
    · simp [he, hkey]
    · simp [he]
  have hsame : (written properties).filter (fun e => keys e.1) =
      (written others).filter fun e => keys e.1 := h
  rw [literal?_written, literal?_written, hfilter, hfilter (written others), hsame]

/-- A value is that of the literal without its places. -/
theorem layerValue?_eq (around : Surroundings) (properties : List Property) (source : String)
    (key : Keyword) : layerValue? around properties source key =
      match (literal? properties key).map Literal.unplaced with
      | none => pure none
      | some l => do
        let v ← evaluate around key source l
        return if v.isNull then none else some v := by
  unfold layerValue?
  cases literal? properties key with
  | none => rfl
  | some l => simp only [Option.map_some, evaluate_unplaced]

/-- A literal is a code block if it is one without its places. -/
theorem runProcessor_eq (around : Surroundings) (properties : List Property) (source : String)
    (key : Keyword) : Layers.runProcessor around properties source key =
      match (literal? properties key).map Literal.unplaced with
      | some (.code code) => do let _ ← evaluateCode around key source code
      | _ => pure () := by
  unfold Layers.runProcessor
  cases literal? properties key with
  | none => rfl
  | some l => cases l <;> rfl

/-- A layer has the same value where the same is written under the keyword. -/
theorem SameUnder.layerValue? (h : SameUnder keys properties others) (hkey : keys key = true)
    (around : Surroundings) (source : String) :
    layerValue? around properties source key = layerValue? around others source key := by
  rw [layerValue?_eq, layerValue?_eq, h.literal? hkey]

/-- A layer has the same processor where the same is written under the keyword. -/
theorem SameUnder.runProcessor (h : SameUnder keys properties others) (hkey : keys key = true)
    (around : Surroundings) (source : String) :
    Layers.runProcessor around properties source key =
      Layers.runProcessor around others source key := by
  rw [runProcessor_eq, runProcessor_eq, h.literal? hkey]

end Written

/-! ## Elements -/

/-- The layers of a component that is being defined. -/
def layersOf (defaults : Option (List (Spanned Property))) (d : ComponentDefinition) :
    Layers :=
  .of d.properties defaults d.componentType.node

/-- The layers of an event that is being defined. -/
def eventLayersOf (defaults : Option (List (Spanned Property))) (d : EventDefinition) :
    Layers :=
  (Layers.of d.properties defaults d.kind.node.text).withDefaultKeys eventDefaultKeys

section Building

variable {around elsewhere : Surroundings} {layers others : Layers}

/-- A component shows nothing of what stands under the keywords that no component takes. -/
theorem buildComponent_congr
    (hagree : ∀ key, Context.inComponent key = true → key ≠ .processor →
      layers.Agree around elsewhere others key)
    (hprocessors : ∀ element,
      (layers.named element).runProcessors around .processor .processor =
        (others.named element).runProcessors elsewhere .processor .processor)
    (componentType : String) :
    buildComponent around layers componentType =
      buildComponent elsewhere others componentType := by
  have hname := hagree .name rfl (by decide)
  unfold buildComponent
  rw [hname.requireString]
  refine bind_congr fun name => ?_
  have hnamed : ∀ key, Context.inComponent key = true → key ≠ .processor →
      (layers.named name).Agree around elsewhere (others.named name) key :=
    fun key hkey hne => (hagree key hkey hne).named name
  simp only [(hnamed .data rfl (by decide)).mergeMap,
    (hnamed .layer rfl (by decide)).stringOr, (hnamed .domain rfl (by decide)).stringOr,
    (hnamed .environment rfl (by decide)).stringOr,
    (hnamed .labels rfl (by decide)).mergeStrings, (hnamed .id rfl (by decide)).string?,
    (hnamed .identifiers rfl (by decide)).mergeStrings,
    (hnamed .health rfl (by decide)).stringOr, (hnamed .healthMessage rfl (by decide)).stringOr,
    (hnamed .relations rfl (by decide)).mergeStrings, hprocessors name]

/-- An event shows nothing of what stands under the keywords that no event takes, and of the graph
only what its identifiers refer to. -/
theorem buildEvent_congr
    (hagree : ∀ key, Context.inEvent key = true → key ≠ .processor →
      layers.Agree around elsewhere others key)
    (hprocessors : ∀ element,
      (layers.named element).runProcessors around .processor .eventProcessor =
        (others.named element).runProcessors elsewhere .processor .eventProcessor)
    (hgraph : around.graph.resolveIdentifiers = elsewhere.graph.resolveIdentifiers) :
    buildEvent around layers = buildEvent elsewhere others := by
  have htitle := hagree .title rfl (by decide)
  unfold buildEvent
  rw [htitle.stringOr]
  refine bind_congr fun title => ?_
  have hnamed : ∀ key, Context.inEvent key = true → key ≠ .processor →
      (layers.named title).Agree around elsewhere (others.named title) key :=
    fun key hkey hne => (hagree key hkey hne).named title
  simp only [(hnamed .message rfl (by decide)).stringOr,
    (hnamed .tags rfl (by decide)).mergeStrings,
    (hnamed .identifiers rfl (by decide)).mergeStrings,
    (hnamed .links rfl (by decide)).mergeStrings,
    (hnamed .previous rfl (by decide)).mergeMap, (hnamed .current rfl (by decide)).mergeMap,
    hprocessors title, hgraph]

/-- A component is repeated as often where the layers agree on it. -/
theorem repetitions_congr {g h : Graph}
    (hagree : layers.Agree ⟨g, 0⟩ ⟨h, 0⟩ others .repetition) (componentType : String) :
    repetitions g layers componentType = repetitions h others componentType := by
  unfold repetitions
  rw [hagree.intOr]

end Building

end InfraGraph.Interpretation
