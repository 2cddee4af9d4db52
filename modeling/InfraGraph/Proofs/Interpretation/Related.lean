import InfraGraph.Interpretation.Layers
import InfraGraph.Proofs.Effect

/-!
# Looking up properties in related layers

Every way to look up a property is put together from the own value and the default value under its
keyword, and these from code blocks. So two looks at properties are related if the values of their
layers are: they are equal where the layers come to the same, for instance. What is done by one look
is a relation of this kind as well, which does not see the other one: if all code only decorates the
subject, so does every look at a property.

## Main results

* `related_evaluate` — a literal is evaluated in the way of the code in it.
* `Layers.Related.string?` and the others like it — layers that are related under a keyword hold
  related properties.
* `Layers.related_runProcessors` — processors are related to themselves if all code is.
-/

namespace InfraGraph.Interpretation

open Block (Surroundings Subject)
open Definition (Literal Property Spanned)
open Effect

/-- What only computes is related to itself. -/
theorem related_ofResult {σ : Type} {Q : (α : Type) → Work σ α → Work σ α → Prop}
    (hQ : Compatible Q) {α : Type} (r : Except SemanticError α) :
    Q α (ofResult r) (ofResult r) := by
  cases r with
  | error e => exact hQ.throw _
  | ok a => exact hQ.pure _

variable {Q : (α : Type) → Work Subject α → Work Subject α → Prop} (hQ : Compatible Q)

include hQ

/-! ## Literals -/

section Literals

variable {around : Surroundings} {key : Keyword} {source : String}

mutual

/-- A literal is evaluated in the way of the code in it. -/
theorem related_evaluate (hcode : ∀ code, Q _ (evaluateCode around key source code)
      (evaluateCode around key source code)) :
    ∀ l : Literal, Q _ (evaluate around key source l) (evaluate around key source l)
  | .string _ => hQ.pure _
  | .int _ => hQ.pure _
  | .float _ => hQ.pure _
  | .bool _ => hQ.pure _
  | .code code => hcode code
  | .list items => hQ.bind (related_evaluateItems hcode items) fun _ => hQ.pure _
  | .object members => hQ.bind (related_evaluateMembers hcode [] members) fun _ => hQ.pure _

theorem related_evaluateItems (hcode : ∀ code, Q _ (evaluateCode around key source code)
      (evaluateCode around key source code)) : ∀ items : List (Spanned Literal),
    Q _ (evaluateItems around key source items) (evaluateItems around key source items)
  | [] => hQ.pure _
  | ⟨_, item⟩ :: rest =>
      hQ.bind (related_evaluate hcode item) fun _ =>
        hQ.bind (related_evaluateItems hcode rest) fun _ => hQ.pure _

theorem related_evaluateMembers (hcode : ∀ code, Q _ (evaluateCode around key source code)
      (evaluateCode around key source code)) (done : Entries Value) :
    ∀ members : List (Spanned String × Spanned Literal),
      Q _ (evaluateMembers around key source done members)
        (evaluateMembers around key source done members)
  | [] => hQ.pure _
  | (_, ⟨_, value⟩) :: rest =>
      hQ.bind (related_evaluate hcode value) fun _ => related_evaluateMembers hcode _ rest

end

private theorem related_layerValue? (hcode : ∀ code, Q _ (evaluateCode around key source code)
      (evaluateCode around key source code)) (properties : List Property) :
    Q _ (layerValue? around properties source key) (layerValue? around properties source key) := by
  unfold layerValue?
  split
  · exact hQ.pure _
  · exact hQ.bind (related_evaluate hQ hcode _) fun _ => hQ.pure _

end Literals

/-! ## Properties -/

namespace Layers

/-- Under a keyword, the values of two pairs of layers of one element are related. -/
structure Related (Q : (α : Type) → Work Subject α → Work Subject α → Prop)
    (around elsewhere : Surroundings) (layers others : Layers) (key : Keyword) : Prop where
  element : layers.element = others.element
  own : Q _ (layers.own? around key) (others.own? elsewhere key)
  default : Q _ (layers.default? around key) (others.default? elsewhere key)

namespace Related

variable {around elsewhere : Surroundings} {layers others : Layers} {key : Keyword}
  (h : layers.Related Q around elsewhere others key)

include h

theorem lookup? : Q _ (layers.lookup? around key) (others.lookup? elsewhere key) := by
  unfold Layers.lookup?
  rw [h.element]
  refine hQ.bind h.own fun own => ?_
  split
  · exact hQ.pure _
  · exact hQ.bind h.default fun _ => hQ.pure _

theorem string? : Q _ (layers.string? around key) (others.string? elsewhere key) := by
  refine hQ.bind (h.lookup? hQ) fun found => ?_
  split
  · exact hQ.pure _
  · exact hQ.pure _
  · exact hQ.throw _

theorem stringOr (fallback : String) :
    Q _ (layers.stringOr around key fallback) (others.stringOr elsewhere key fallback) :=
  hQ.bind (h.string? hQ) fun _ => hQ.pure _

theorem requireString :
    Q _ (layers.requireString around key) (others.requireString elsewhere key) := by
  unfold Layers.requireString
  rw [h.element]
  refine hQ.bind (h.string? hQ) fun found => ?_
  split
  · exact hQ.pure _
  · exact hQ.throw _

theorem intOr (fallback : Int64) :
    Q _ (layers.intOr around key fallback) (others.intOr elsewhere key fallback) := by
  refine hQ.bind (h.lookup? hQ) fun found => ?_
  split
  · exact hQ.pure _
  · exact hQ.pure _
  · exact hQ.throw _

/-- Both layers are merged alike, into a map or a list. -/
theorem merge {α : Type} (x : Merge α) :
    Q _ (x.run around layers key) (x.run elsewhere others key) := by
  unfold Merge.run Merge.contribute
  rw [h.element]
  refine hQ.bind (hQ.bind h.default fun held => related_ofResult hQ _) fun base => ?_
  exact hQ.bind (hQ.bind h.own fun held => related_ofResult hQ _) fun own => hQ.pure _

theorem mergeMap : Q _ (layers.mergeMap around key) (others.mergeMap elsewhere key) :=
  h.merge hQ .map

theorem mergeStrings :
    Q _ (layers.mergeStrings around key) (others.mergeStrings elsewhere key) := by
  unfold Layers.mergeStrings
  rw [h.element]
  refine hQ.bind (h.merge hQ .list) fun items => ?_
  split
  · exact hQ.pure _
  · exact hQ.throw _

end Related

/-! ## Processors -/

section Code

variable {around : Surroundings} (hcode : ∀ key source code,
  Q _ (evaluateCode around key source code) (evaluateCode around key source code))

include hcode

/-- If all code is related to itself, so are layers under every keyword. -/
theorem related_self (layers : Layers) (key : Keyword) :
    layers.Related Q around around layers key :=
  ⟨rfl, related_layerValue? hQ (hcode key _) _, related_layerValue? hQ (hcode key _) _⟩

private theorem related_runProcessor (properties : List Property) (source : String)
    (key : Keyword) :
    Q _ (runProcessor around properties source key)
      (runProcessor around properties source key) := by
  unfold runProcessor
  split
  · exact hQ.bind (hcode key source _) fun _ => hQ.pure _
  · exact hQ.pure _

theorem related_runProcessors (layers : Layers) (ownKey defaultKey : Keyword) :
    Q _ (layers.runProcessors around ownKey defaultKey)
      (layers.runProcessors around ownKey defaultKey) :=
  hQ.bind (related_runProcessor hQ hcode _ _ ownKey) fun _ =>
    related_runProcessor hQ hcode _ _ defaultKey

end Code

end Layers

end InfraGraph.Interpretation
