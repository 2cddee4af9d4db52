import InfraGraph.Proofs.Graph.DecoratedGraph
import InfraGraph.Proofs.Interpretation.CodeFree
import InfraGraph.Proofs.Interpretation.Defaults
import InfraGraph.Proofs.Interpretation.Growth

/-!
# Processors only decorate

Processors run after the uid and the first identifier of a component are settled and before its
health and its relations are looked up. They may decorate the component and ask about the graph; but
if there is no other code, nothing that is looked up after them can tell what they did. A text with
processors is therefore compared with what is left of it without them: wherever the first one is
read, so is the second one, and the graphs differ in decorations only. Texts that differ in their
processors are both compared with the same rest.

## Main results

* `simulates_buildComponent` — without processors, the same component is built, undecorated.
* `simulates_addComponents` — so are all components of a text.
* `interpret_processors` — processors change neither components, relations nor health states.
-/

namespace InfraGraph.Interpretation

open Block (Surroundings Subject)
open Definition (Definitions Property Spanned ComponentDefinition)
open Effect

/-! ## Texts that differ in their processors -/

/-- The keywords of all properties but processors. -/
def besidesProcessor (key : Keyword) : Bool := key != .processor

/-- Two texts whose components and defaults are the same but for processors. -/
structure AlikeButProcessors (d other : Definitions) : Prop where
  defaults : SameUnder besidesProcessor (defaultProperties (defaultsOf d))
    (defaultProperties (defaultsOf other))
  components : List.Forall₂ (fun c e =>
    c.node.componentType.node = e.node.componentType.node ∧
      SameUnder besidesProcessor (c.node.properties.map Spanned.node)
        (e.node.properties.map Spanned.node)) d.components other.components

/-- In components and defaults there is no code but in processors. -/
structure CodeFreeButProcessors (d : Definitions) : Prop where
  defaults : ∀ p ∈ defaultProperties (defaultsOf d), p.key.node ≠ .processor →
    p.literal.node.isCodeFree = true
  components : ∀ c ∈ d.components, ∀ p ∈ c.node.properties.map Spanned.node,
    p.key.node ≠ .processor → p.literal.node.isCodeFree = true

/-- Properties without processors. -/
def withoutProcessors (properties : List (Spanned Property)) : List (Spanned Property) :=
  properties.filter fun p => besidesProcessor p.node.key.node

private theorem sameUnder_withoutProcessors (properties : List (Spanned Property)) :
    SameUnder besidesProcessor ((withoutProcessors properties).map Spanned.node)
      (properties.map Spanned.node) := by
  unfold SameUnder written withoutProcessors
  simp only [List.map_map, List.filter_map, List.filter_filter]
  congr 2
  funext p
  simp

private theorem codeFree_withoutProcessors {properties : List (Spanned Property)}
    (hfree : ∀ p ∈ properties.map Spanned.node, p.key.node ≠ .processor →
      p.literal.node.isCodeFree = true) :
    Definition.CodeFree (withoutProcessors properties) := by
  intro p hp
  obtain ⟨hmem, hkey⟩ := List.mem_filter.1 hp
  refine hfree p.node (List.mem_map_of_mem hmem) ?_
  simpa [besidesProcessor] using hkey

/-! ## Layers without processors -/

/-- The first layers are what is left of the second ones without their processors, and hold no
code. -/
structure Bare (bare layers : Layers) : Prop where
  element : bare.element = layers.element
  own : SameUnder besidesProcessor bare.own layers.own
  defaults : SameUnder besidesProcessor bare.defaults layers.defaults
  codeFree : bare.CodeFree

namespace Bare

variable {bare layers : Layers} (h : Bare bare layers)

include h

theorem named (element : String) : Bare (bare.named element) (layers.named element) :=
  { h with
    element := rfl
    codeFree := h.codeFree.named element }

/-- Without processors, layers agree with what they were under every other keyword. -/
theorem agree (around elsewhere : Surroundings) {key : Keyword} (hkey : key ≠ .processor) :
    layers.Agree around elsewhere bare key := by
  have hbesides : besidesProcessor key = true := by simpa [besidesProcessor] using hkey
  have hbare := (h.codeFree.under key).agree around elsewhere
  refine ⟨h.element.symm, fun source => ?_, fun source => ?_⟩
  · rw [← h.own.layerValue? hbesides, hbare.own]
  · rw [← h.defaults.layerValue? hbesides, hbare.defaults]

end Bare

/-! ## Components -/

/-- Looking at properties that leave the subject alone leaves the component alone. -/
theorem steady_onComponent {α : Type} {work : Work Subject α} (hwork : Steady work) :
    Steady (onComponent work) := by
  obtain ⟨r, hr⟩ := hwork
  refine ⟨r, fun c => ?_⟩
  show ((work.run ⟨some c, none⟩).1, (work.run ⟨some c, none⟩).2.component.getD c) = (r, c)
  rw [hr]
  rfl

/-- A decoration leaves what a health state is made of. -/
theorem ofComponent_decorated {c d : Component} (hcd : c.Decorated d)
    (hsome : c.identifiers ≠ []) (health message : String) :
    HealthState.ofComponent d health message = HealthState.ofComponent c health message := by
  have htopo : d.topoIdentifier = c.topoIdentifier := by
    obtain ⟨more, hmore⟩ := hcd.identifiers
    obtain ⟨first, rest, hfirst⟩ := List.exists_cons_of_ne_nil hsome
    rw [Component.topoIdentifier, Component.topoIdentifier, ← hmore, hfirst]
    rfl
  unfold HealthState.ofComponent
  rw [hcd.name, htopo]

section Components

variable {bare layers : Layers}

/-- Processors decorate the component that stays as it is without them. -/
theorem simulates_processors (around : Surroundings) (layers : Layers) :
    Simulates (fun c d => c = d ∧ c.identifiers ≠ []) (onComponent (pure ()))
      (onComponent (layers.runProcessors around .processor .processor))
      fun _ c d => c.Decorated d ∧ c.identifiers ≠ [] := by
  rintro c _ ⟨rfl, hsome⟩ a d hrun
  have hprocessed := keeps_onComponent
    (layers.keeps_runProcessors around .processor .processor) c
  rw [hrun] at hprocessed
  exact ⟨c, rfl, hprocessed, hsome⟩

/-- A component without processors is built where it is built with them, undecorated. -/
theorem simulates_buildComponent (h : Bare bare layers) (around elsewhere : Surroundings)
    (componentType : String) :
    Simulates Eq (buildComponent elsewhere bare componentType)
      (buildComponent around layers componentType) fun _ => Component.Decorated := by
  have hname : layers.Agree around elsewhere bare .name :=
    h.agree around elsewhere (by decide)
  unfold buildComponent
  rw [hname.requireString]
  refine .same fun name => ?_
  have hnamed := h.named name
  have hfree := hnamed.codeFree
  have hagree : ∀ key, key ≠ .processor →
      (layers.named name).Agree around elsewhere (bare.named name) key :=
    fun key hkey => hnamed.agree around elsewhere hkey
  simp only [(hagree .data (by decide)).mergeMap, (hagree .layer (by decide)).stringOr,
    (hagree .domain (by decide)).stringOr, (hagree .environment (by decide)).stringOr,
    (hagree .labels (by decide)).mergeStrings, (hagree .id (by decide)).string?,
    (hagree .identifiers (by decide)).mergeStrings, (hagree .health (by decide)).stringOr,
    (hagree .healthMessage (by decide)).stringOr,
    (hagree .relations (by decide)).mergeStrings, hfree.runProcessors_eq_pure]
  -- Up to the identifiers, both do the same to the same component.
  refine .same fun _ => .same fun data => .same fun _ => .same fun layer => ?_
  refine .same fun _ => .same fun domain => .same fun _ => .same fun environment => ?_
  refine .same fun _ => .same fun labels => .same fun _ => .same fun id => ?_
  refine .same fun _ => .same fun identifiers => .same fun _ => ?_
  generalize id.getD (synthesizeUid componentType name) = uid
  -- From here on there is an identifier, and decorations cannot show in what follows.
  refine Simulates.bind (S := fun _ c d => c = d ∧ c.identifiers ≠ []) ?_ fun _ => ?_
  · refine .modify fun c d hcd => ⟨by rw [hcd], ?_⟩
    cases hidentifiers : c.identifiers with
    | nil => simp
    | cons first rest => simp [hidentifiers]
  refine (simulates_processors around (layers.named name)).bind fun _ => ?_
  refine (Simulates.steady (steady_onComponent
    ((hfree.under .health).steady_stringOr elsewhere _))).bind fun health => ?_
  refine (Simulates.steady (steady_onComponent
    ((hfree.under .healthMessage).steady_stringOr elsewhere _))).bind fun message => ?_
  refine .get_bind fun c d hcd => ?_
  rw [ofComponent_decorated hcd.1 hcd.2]
  cases HealthState.ofComponent c health message with
  | error e =>
      rintro _ _ ⟨rfl, rfl⟩ state d' hrun
      cases hrun
  | ok state =>
      refine Simulates.bind (S := fun _ => Component.Decorated) ?_ fun state => ?_
      · refine .pure fun _ _ hsame => ?_
        rw [hsame.1, hsame.2]
        exact hcd.1
      refine (Simulates.steady (steady_onComponent
        ((hfree.under .relations).steady_mergeStrings elsewhere))).bind fun relations => ?_
      refine Simulates.bind (S := fun _ => Component.Decorated) ?_ fun _ => ?_
      · exact .modify fun _ _ hdecorated => { hdecorated with pending := rfl }
      · exact .pure fun _ _ hdecorated => hdecorated

/-- A repetition without processors is added where one with processors is. -/
theorem exists_addRepetition (h : Bare bare layers) {componentType : String} {repetition : Nat}
    {g k l : Graph} (hgk : g.Decorated k)
    (hadd : addRepetition layers componentType repetition k = (.ok (), l)) :
    ∃ m, addRepetition bare componentType repetition g = (.ok (), m) ∧ m.Decorated l := by
  obtain ⟨state, d, n, hbuild, hregister, rfl⟩ := addRepetition_eq_ok_iff.1 hadd
  have hsimulates := simulates_buildComponent h ⟨k, Int64.ofNat repetition⟩
    ⟨g, Int64.ofNat repetition⟩ componentType
  obtain ⟨c, hrun, hcd⟩ := hsimulates _ _ rfl state d hbuild
  obtain ⟨m, hm, hmn⟩ := hgk.addComponent hcd hregister
  exact ⟨m.setHealth state, addRepetition_eq_ok_iff.2 ⟨state, c, m, hrun, hm, rfl⟩,
    hmn.setHealth state⟩

private theorem exists_addRepetitions (h : Bare bare layers) {componentType : String}
    {count repetition : Nat} {g k l : Graph} (hgk : g.Decorated k)
    (hadd : addRepetitions layers componentType count repetition k = (.ok (), l)) :
    ∃ m, addRepetitions bare componentType count repetition g = (.ok (), m) ∧
      m.Decorated l := by
  induction count generalizing repetition g k with
  | zero =>
      cases hadd
      exact ⟨g, rfl, hgk⟩
  | succ count ih =>
      obtain ⟨n, hone, hrest⟩ := addRepetitions_succ_eq_ok_iff.1 hadd
      obtain ⟨m, hm, hmn⟩ := exists_addRepetition h hgk hone
      obtain ⟨o, ho, hol⟩ := ih hmn hrest
      exact ⟨o, addRepetitions_succ_eq_ok_iff.2 ⟨m, hm, ho⟩, hol⟩

end Components

/-! ## The first pass -/

section Pass

variable {defaults bareDefaults : Option (List (Spanned Property))}

private theorem simulates_addDefinition {b d : ComponentDefinition}
    (htype : b.componentType.node = d.componentType.node)
    (h : Bare (layersOf bareDefaults b) (layersOf defaults d)) :
    Simulates Graph.Decorated (addDefinition bareDefaults b) (addDefinition defaults d)
      fun _ => Graph.Decorated := by
  intro g k hgk n l hrun
  obtain ⟨hcount, hadd⟩ := addDefinition_eq_ok_iff.1 hrun
  obtain ⟨m, hm, hml⟩ := exists_addRepetitions h hgk hadd
  have hrepetitions := repetitions_congr (h.agree ⟨k, 0⟩ ⟨g, 0⟩ (by decide))
    d.componentType.node
  rw [hrepetitions] at hcount
  rw [← htype] at hcount hm
  exact ⟨m, addDefinition_eq_ok_iff.2 ⟨hcount, hm⟩, hml⟩

/-- Components without processors are added where they are added with them, undecorated. -/
theorem simulates_addComponents {bs ds : List (Spanned ComponentDefinition)}
    (h : List.Forall₂ (fun b d => b.node.componentType.node = d.node.componentType.node ∧
      Bare (layersOf bareDefaults b.node) (layersOf defaults d.node)) bs ds) :
    Simulates Graph.Decorated (addComponents bareDefaults bs) (addComponents defaults ds)
      fun _ => Graph.Decorated := by
  induction h with
  | nil => exact .pure fun _ _ hgk => hgk
  | cons hone _ ih =>
      refine (simulates_addDefinition hone.1 hone.2).bind fun n => ?_
      exact ih.bind fun m => .pure fun _ _ hgk => hgk

end Pass

/-! ## Texts without their processors -/

/-- A text without processors in its components and its defaults. -/
def bareText (d : Definitions) : Definitions :=
  { d with
    defaults := d.defaults.map fun p => { p with node := withoutProcessors p.node }
    components := d.components.map fun c =>
      { c with node := { c.node with properties := withoutProcessors c.node.properties } } }

theorem AlikeButProcessors.refl (d : Definitions) : AlikeButProcessors d d where
  defaults := rfl
  components := List.forall₂_same.2 fun _ _ => ⟨rfl, rfl⟩

/-- What is left of a text without its processors is bare beside any text that is alike. -/
theorem AlikeButProcessors.bare {d other : Definitions} (halike : AlikeButProcessors d other)
    (hd : CodeFreeButProcessors d) :
    List.Forall₂ (fun b c => b.node.componentType.node = c.node.componentType.node ∧
        Bare (layersOf (defaultsOf (bareText d)) b.node) (layersOf (defaultsOf other) c.node))
      (bareText d).components other.components := by
  have hproperties : (defaultsOf (bareText d)).getD [] =
      withoutProcessors ((defaultsOf d).getD []) := by
    unfold defaultsOf bareText
    cases d.defaults <;> rfl
  have hdefaults : SameUnder besidesProcessor (defaultProperties (defaultsOf (bareText d)))
      (defaultProperties (defaultsOf other)) := by
    rw [defaultProperties, hproperties]
    exact (sameUnder_withoutProcessors _).trans halike.defaults
  have hfree : ∀ properties, defaultsOf (bareText d) = some properties →
      Definition.CodeFree properties := by
    intro properties hsome
    rw [hsome] at hproperties
    obtain rfl : properties = _ := hproperties
    exact codeFree_withoutProcessors hd.defaults
  refine List.forall₂_map_left_iff.2 ?_
  refine ((List.forall₂_and_left _ _).2 ⟨fun _ hc => hc, halike.components⟩).imp ?_
  rintro c e ⟨hc, htype, hsame⟩
  have hbare : Bare (layersOf (defaultsOf (bareText d))
      { c.node with properties := withoutProcessors c.node.properties })
      (layersOf (defaultsOf other) e.node) :=
    { element := htype
      own := (sameUnder_withoutProcessors _).trans hsame
      defaults := hdefaults
      codeFree := Layers.codeFree_of (codeFree_withoutProcessors (hd.components c hc)) hfree }
  exact ⟨htype, hbare⟩

/-- Once the components of a text with processors are registered, its graph is that of the text
without them, decorated. -/
theorem AlikeButProcessors.exists_decorated {d other : Definitions}
    (halike : AlikeButProcessors d other) (hd : CodeFreeButProcessors d) {g k : Graph} {n : Nat}
    (hrun : (addComponents (defaultsOf other) other.components).run g = (.ok n, k)) :
    ∃ h, (addComponents (defaultsOf (bareText d)) (bareText d).components).run g = (.ok n, h) ∧
      h.resolveRelations.2.Decorated k.resolveRelations.2 := by
  obtain ⟨h, hbare, hhk⟩ := simulates_addComponents (halike.bare hd) g g (.refl g) n k hrun
  exact ⟨h, hbare, hhk.resolveRelations.2⟩

/-! ## What processors leave -/

/-- Two graphs have the same components by uid, name and type, the same relations and the same
health states, each in the same order. -/
structure SameOutline (h k : Graph) : Prop where
  components : h.componentList.map (fun c => (c.uid, c.name, c.componentType)) =
    k.componentList.map fun c => (c.uid, c.name, c.componentType)
  relations : h.relationList = k.relationList
  health : h.healthList = k.healthList

private theorem SameOutline.of_decorated {g h k : Graph} (hgh : g.Decorated h)
    (hgk : g.Decorated k) :
    SameOutline h k where
  components := by
    have houtline : ∀ c d : Component, c.Decorated d →
        (d.uid, d.name, d.componentType) = (c.uid, c.name, c.componentType) := by
      intro c d hcd
      rw [hcd.uid, hcd.name, hcd.componentType]
    rw [hgh.map_eq houtline, hgk.map_eq houtline]
  relations := by
    rw [Graph.relationList, Graph.relationList, ← hgh.relations, hgk.relations]
  health := by
    rw [Graph.healthList, Graph.healthList, ← hgh.health, hgk.health]

/-- Two texts that differ in their processors only, and have no other code in components or
defaults, do the same to a graph as far as its outline goes, once their components are registered:
processors may decorate components, but every uid, every relation and every health state is what it
would be without them. -/
theorem interpret_processors (clock later : Clock) (d other : Definitions)
    (halike : AlikeButProcessors d other) (hd : CodeFreeButProcessors d) (g : Graph)
    (hfirst : ((addComponents (defaultsOf d) d.components).run g).1.isOk = true)
    (hsecond : ((addComponents (defaultsOf other) other.components).run g).1.isOk = true) :
    SameOutline ((interpret clock d).run g).2 ((interpret later other).run g).2 := by
  obtain ⟨n, h, hrun⟩ := exists_run_of_isOk hfirst
  obtain ⟨m, k, hother⟩ := exists_run_of_isOk hsecond
  obtain ⟨b, hb, hbh⟩ := (AlikeButProcessors.refl d).exists_decorated hd hrun
  obtain ⟨b', hb', hbk⟩ := halike.exists_decorated hd hother
  -- Both are decorations of one graph, that of the text without its processors.
  obtain rfl : b = b' := (Prod.mk.inj (hb.symm.trans hb')).2
  obtain ⟨es, hes⟩ := exists_withEvents_of_addComponents clock hrun
  obtain ⟨fs, hfs⟩ := exists_withEvents_of_addComponents later hother
  have houtline := SameOutline.of_decorated hbh hbk
  rw [hes, hfs]
  exact ⟨houtline.components, houtline.relations, houtline.health⟩

/-- A host gets a second identifier, or none. -/
theorem interpret_processors_hosts :
    let noon : Clock := fun _ => "2024-03-01T12:00:00Z"
    let web (processors : List (Keyword × Definition.Literal)) := ComponentDefinition.ofEntries
      "Host" ((.name, .string "web") ::
        (.relations, .list [Definition.nowhere (.string "<db")]) :: processors)
    let db := ComponentDefinition.ofEntries "Host" [(.name, .string "db")]
    let d : Definitions :=
      ⟨none, [web [(.processor, .code "component.add_identifier(\"10.0.0.1\")")], db], []⟩
    let other : Definitions := ⟨none, [web [], db], []⟩
    AlikeButProcessors d other ∧ CodeFreeButProcessors d ∧
      SameOutline ((interpret noon d).run Graph.empty).2
        ((interpret noon other).run Graph.empty).2 := by
  intro noon web db d other
  have halike : AlikeButProcessors d other := ⟨rfl, .cons ⟨rfl, rfl⟩ (.cons ⟨rfl, rfl⟩ .nil)⟩
  have hfree : CodeFreeButProcessors d := by
    constructor
    · simp [d, defaultProperties, defaultsOf]
    · simp [d, web, db, ComponentDefinition.ofEntries, Definition.Literal.isCodeFree,
        Definition.Literal.codeFreeItems]
  exact ⟨halike, hfree, interpret_processors noon noon d other halike hfree Graph.empty
    (by decide +kernel) (by decide +kernel)⟩

end InfraGraph.Interpretation
