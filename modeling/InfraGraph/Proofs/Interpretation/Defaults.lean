import InfraGraph.Proofs.Interpretation.Agreement
import InfraGraph.Proofs.Interpretation.Timestamps

/-!
# Which defaults reach what

The defaults of a text are one list for components and events. Each element sees only the part of it
that is meant for it: a component never looks under the keywords of events, and the layers of an
event are cut down to these keywords before anything is looked up. What else stands in the list, be
it code, repeated or of a wrong type, then cannot show, whether the element is built or refused.

## Main results

* `addDefinition_congr` — components that cannot be told apart are added alike.
* `defaults_reach` — components and events depend on their part of the defaults only.
-/

namespace InfraGraph.Interpretation

open Block (Surroundings)
open Definition (Property Spanned ComponentDefinition EventDefinition nowhere)

/-! ## Layers with other defaults -/

/-- The properties in a block of defaults; without a block there are none. -/
def defaultProperties (defaults : Option (List (Spanned Property))) : List Property :=
  (defaults.getD []).map Spanned.node

/-- Two pairs of layers of one element, whose defaults say the same under some keywords. -/
structure Layers.Share (keys : Keyword → Bool) (layers others : Layers) : Prop where
  element : layers.element = others.element
  own : layers.own = others.own
  defaults : SameUnder keys layers.defaults others.defaults

namespace Layers.Share

variable {keys : Keyword → Bool} {layers others : Layers} (h : Share keys layers others)
  (around : Surroundings)

include h

theorem agree {key : Keyword} (hkey : keys key = true) :
    layers.Agree around around others key where
  element := h.element
  own _ := by rw [h.own]
  defaults source := h.defaults.layerValue? hkey around source

theorem runProcessors {defaultKey : Keyword} (hkey : keys defaultKey = true)
    (ownKey : Keyword) (element : String) :
    (layers.named element).runProcessors around ownKey defaultKey =
      (others.named element).runProcessors around ownKey defaultKey := by
  have hprocessor := h.defaults.runProcessor hkey around defaultSource
  unfold Layers.runProcessors Layers.named
  rw [h.own, hprocessor]

end Layers.Share

/-! ## Components -/

section Components

variable {layers others : Layers} {componentType : String}

private theorem addRepetitions_congr
    (hbuild : ∀ around, buildComponent around layers componentType =
      buildComponent around others componentType) (count repetition : Nat) (g : Graph) :
    addRepetitions layers componentType count repetition g =
      addRepetitions others componentType count repetition g := by
  have hone : ∀ repetition g, addRepetition layers componentType repetition g =
      addRepetition others componentType repetition g := by
    intro repetition g
    unfold addRepetition
    rw [hbuild]
  induction count generalizing repetition g with
  | zero => rfl
  | succ count ih =>
      unfold addRepetitions
      rw [hone]
      split
      · rfl
      · exact ih _ _

/-- A definition adds the same where its layers build and repeat the same. -/
theorem addDefinition_congr {first second : Option (List (Spanned Property))}
    {d : ComponentDefinition}
    (hbuild : ∀ around, buildComponent around (layersOf first d) d.componentType.node =
      buildComponent around (layersOf second d) d.componentType.node)
    (hrepetitions : ∀ g, repetitions g (layersOf first d) d.componentType.node =
      repetitions g (layersOf second d) d.componentType.node) :
    addDefinition first d = addDefinition second d := by
  unfold addDefinition
  unfold layersOf at hbuild hrepetitions
  simp only [hrepetitions, addRepetitions_congr hbuild]

end Components

/-! ## Elements with other defaults -/

section Elements

variable {first second : Option (List (Spanned Property))}

private theorem addDefinition_of_sameUnder
    (h : SameUnder (fun key => key ∉ [.tags, .eventProcessor]) (defaultProperties first)
      (defaultProperties second)) (d : ComponentDefinition) :
    addDefinition first d = addDefinition second d := by
  have hshare : Layers.Share _ (layersOf first d) (layersOf second d) := ⟨rfl, rfl, h⟩
  have hkeys : ∀ key, Context.inComponent key = true →
      decide (key ∉ [Keyword.tags, .eventProcessor]) = true := by
    intro key hkey
    cases key <;> simp [Context.inComponent] at hkey ⊢
  refine addDefinition_congr (fun around => ?_) fun g => ?_
  · exact buildComponent_congr (fun key hkey _ => hshare.agree around (hkeys key hkey))
      (fun element => hshare.runProcessors around rfl .processor element) _
  · exact repetitions_congr (hshare.agree ⟨g, 0⟩ rfl) _

/-- Only the keywords of events are left among the defaults of an event. -/
theorem sameUnder_withDefaultKeys
    (h : SameUnder (fun key => key ∈ [.tags, .eventProcessor]) (defaultProperties first)
      (defaultProperties second)) :
    SameUnder (fun _ => true)
      ((defaultProperties first).filter fun p => eventDefaultKeys.contains p.key.node)
      ((defaultProperties second).filter fun p => eventDefaultKeys.contains p.key.node) := by
  have hwritten : ∀ properties : List Property,
      written (properties.filter fun p => eventDefaultKeys.contains p.key.node) =
        (written properties).filter fun e => decide (e.1 ∈ [Keyword.tags, .eventProcessor]) := by
    intro properties
    rw [written, written, List.filter_map]
    congr 2
    funext p
    simp [eventDefaultKeys]
  unfold SameUnder at h ⊢
  rw [hwritten, hwritten, h]

private theorem eventOf_of_sameUnder
    (h : SameUnder (fun key => key ∈ [.tags, .eventProcessor]) (defaultProperties first)
      (defaultProperties second)) (clock : Clock) (d : EventDefinition) (g : Graph) :
    eventOf clock first d g = eventOf clock second d g := by
  have hshare : Layers.Share _ (eventLayersOf first d) (eventLayersOf second d) :=
    ⟨rfl, rfl, sameUnder_withDefaultKeys h⟩
  have hbuild : buildEvent ⟨g, 0⟩ (eventLayersOf first d) =
      buildEvent ⟨g, 0⟩ (eventLayersOf second d) :=
    buildEvent_congr (fun _ _ _ => hshare.agree ⟨g, 0⟩ rfl)
      (fun element => hshare.runProcessors ⟨g, 0⟩ rfl .processor element) rfl
  unfold eventLayersOf at hbuild
  unfold eventOf
  simp only [hbuild]

end Elements

/-- A component depends on the defaults only through what is written under keywords other than the
tags and the processor of events, and an event only through what is written under these two:
whatever else the defaults hold, the same is added to the same graph, or the same error is found. By
another clock, it is still the same but for the time of the event. -/
theorem defaults_reach (first second : Option (List (Spanned Property))) :
    (SameUnder (fun key => key ∉ [.tags, .eventProcessor]) (defaultProperties first)
        (defaultProperties second) →
      ∀ (d : ComponentDefinition) (g : Graph),
        (addDefinition first d).run g = (addDefinition second d).run g) ∧
    (SameUnder (fun key => key ∈ [.tags, .eventProcessor]) (defaultProperties first)
        (defaultProperties second) →
      ∀ (clock : Clock) (d : EventDefinition) (g : Graph),
        (addEvent clock first d).run g = (addEvent clock second d).run g ∧
        ∀ other : Clock,
          ((addEvent clock first d).run g).1 = ((addEvent other second d).run g).1 ∧
          ((addEvent clock first d).run g).2.untimed =
            ((addEvent other second d).run g).2.untimed) := by
  constructor
  · intro h d g
    rw [addDefinition_of_sameUnder h d]
  · intro h clock d g
    have hevent : eventOf clock first d = eventOf clock second d :=
      funext fun g => eventOf_of_sameUnder h clock d g
    have hsame : addEvent clock first d = addEvent clock second d := by
      unfold addEvent
      rw [hevent]
    rw [hsame]
    exact ⟨rfl, fun other => addEvent_untimed clock other second d g⟩

/-- Components do not see a processor for events, and events see neither identifiers nor a processor
for components. -/
theorem defaults_reach_processors :
    let entry (key : Keyword) (code : String) : Spanned Property :=
      nowhere ⟨nowhere key, nowhere (.code code)⟩
    let shared := entry .tags "[component.name]"
    let first := some [entry .eventProcessor "event.add_tag(\"new\")", shared]
    let second := some [shared]
    let third := some [entry .identifiers "1", shared, entry .processor "component"]
    SameUnder (fun key => key ∉ [.tags, .eventProcessor]) (defaultProperties first)
        (defaultProperties second) ∧
      SameUnder (fun key => key ∈ [.tags, .eventProcessor]) (defaultProperties second)
        (defaultProperties third) ∧
      (∀ d g, (addDefinition first d).run g = (addDefinition second d).run g) ∧
      ∀ clock d g, (addEvent clock second d).run g = (addEvent clock third d).run g := by
  intro entry shared first second third
  have hcomponents : SameUnder (fun key => key ∉ [.tags, .eventProcessor])
      (defaultProperties first) (defaultProperties second) := rfl
  have hevents : SameUnder (fun key => key ∈ [.tags, .eventProcessor])
      (defaultProperties second) (defaultProperties third) := rfl
  exact ⟨hcomponents, hevents, (defaults_reach first second).1 hcomponents,
    fun clock d g => ((defaults_reach second third).2 hevents clock d g).1⟩

end InfraGraph.Interpretation
