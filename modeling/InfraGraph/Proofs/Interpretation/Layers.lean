import InfraGraph.Proofs.Block.Decoration
import InfraGraph.Proofs.Interpretation.Related

/-!
# Looking up properties decorates

A property may hold code at any depth, and looking it up may run the code of both layers, or stop in
the middle of it. The subject is then decorated, and nothing else is done to it.

## Main results

* `keeps_evaluateCode` — code under a keyword decorates.
* `Layers.keeps_string?` and the others like it — so does every way to look up a property.
* `Layers.keeps_runProcessors` — and running the processors.
-/

namespace InfraGraph.Interpretation

open Block (Surroundings Subject)
open Effect

/-! ## Code -/

theorem run_of {σ α : Type} (f : σ → Except SemanticError α × σ) (s : σ) :
    (Work.of f).run s = f s := rfl

/-- What a function does to the state, work made of it does. -/
theorem keeps_of {σ α : Type} {R : σ → σ → Prop}
    {f : σ → Except SemanticError α × σ} (h : ∀ s, R s (f s).2) :
    Keeps R (Work.of f) := h

/-- Evaluating code only decorates the subject. -/
theorem keeps_evaluateCode (around : Surroundings) (key : Keyword)
    (source code : String) :
    Keeps Subject.Decorated (evaluateCode around key source code) :=
  keeps_of (Block.evaluateText_decorated around key.text source code)

/-! ## Properties -/

namespace Layers

variable (around : Surroundings) (layers : Layers) (key : Keyword)

/-- Whatever is looked up is put together from code that decorates. -/
theorem related_keeps :
    layers.Related (fun _ w _ => Keeps Subject.Decorated w) around around layers key :=
  related_self (Keeps.compatible _) (keeps_evaluateCode around) layers key

theorem keeps_string? : Keeps Subject.Decorated (layers.string? around key) :=
  (related_keeps around layers key).string? (Keeps.compatible _)

theorem keeps_stringOr (fallback : String) :
    Keeps Subject.Decorated (layers.stringOr around key fallback) :=
  (related_keeps around layers key).stringOr (Keeps.compatible _) fallback

theorem keeps_requireString : Keeps Subject.Decorated (layers.requireString around key) :=
  (related_keeps around layers key).requireString (Keeps.compatible _)

theorem keeps_mergeMap : Keeps Subject.Decorated (layers.mergeMap around key) :=
  (related_keeps around layers key).mergeMap (Keeps.compatible _)

theorem keeps_mergeStrings : Keeps Subject.Decorated (layers.mergeStrings around key) :=
  (related_keeps around layers key).mergeStrings (Keeps.compatible _)

theorem keeps_runProcessors (ownKey defaultKey : Keyword) :
    Keeps Subject.Decorated (layers.runProcessors around ownKey defaultKey) :=
  related_runProcessors (Keeps.compatible _) (keeps_evaluateCode around) layers ownKey defaultKey

end Layers

end InfraGraph.Interpretation
