import InfraGraph.Graph.Basic
import InfraGraph.Interpretation.Layers

/-!
# Components from their definitions

A definition stands for one component or, with a repetition, for several that differ by its number.
Each is built property by property and then added to the graph together with its health state; code
blocks see the component as far as it is built and the graph with the components before it.
-/

namespace InfraGraph.Interpretation

open Definition (Property Spanned ComponentDefinition)
open Block (Surroundings Subject)

/-- The uid of a component that does not give one. -/
def synthesizeUid (componentType name : String) : String :=
  let lower (s : String) : String := String.ofList (Text.lower s.toList)
  "urn:" ++ lower componentType ++ ":" ++ lower name

/-- Looks at properties of a component, which their code may decorate. -/
def onComponent {α : Type} (work : Work Subject α) : Work Component α :=
  Work.of fun c =>
    let (result, subject) := work.run ⟨some c, none⟩
    (result, subject.component.getD c)

/-- Builds a component from its blank state and gives its health state. -/
def buildComponent (around : Surroundings) (layers : Layers) (componentType : String) :
    Work Component HealthState := do
  let name ← onComponent (layers.requireString around .name)
  let named := layers.named name
  modify fun c => { c with name }
  let data ← onComponent (named.mergeMap around .data)
  modify fun c => { c with properties := Entries.extend c.properties data }
  let layer ← onComponent (named.stringOr around .layer Component.unknown)
  modify fun c => { c with layer }
  let domain ← onComponent (named.stringOr around .domain Component.unknown)
  modify fun c => { c with domain }
  let environment ← onComponent (named.stringOr around .environment Component.unknown)
  modify fun c => { c with environment }
  let labels ← onComponent (named.mergeStrings around .labels)
  modify fun c => { c with labels := c.labels ++ labels }
  let id ← onComponent (named.string? around .id)
  let uid := id.getD (synthesizeUid componentType name)
  modify fun c => { c with uid }
  let identifiers ← onComponent (named.mergeStrings around .identifiers)
  modify fun c => identifiers.foldl Component.addIdentifier c
  modify fun c => if c.identifiers.isEmpty then { c with identifiers := [uid] } else c
  onComponent (named.runProcessors around .processor .processor)
  let health ← onComponent (named.stringOr around .health HealthState.defaultHealth)
  let message ← onComponent (named.stringOr around .healthMessage "")
  let state ← match HealthState.ofComponent (← get) health message with
    | .ok state => pure state
    | .error e => throw e
  let relations ← onComponent (named.mergeStrings around .relations)
  modify fun c => { c with pending := relations.map (PendingRelation.read uid) }
  return state

/-- Adds one repetition of a component. -/
def addRepetition (layers : Layers) (componentType : String) (repetition : Nat) (g : Graph) :
    Except SemanticError Unit × Graph :=
  let (result, c) := (buildComponent ⟨g, Int64.ofNat repetition⟩ layers componentType).run
    (Component.blank componentType)
  match result with
  | .error e => (.error e, g)
  | .ok state =>
    match g.addComponent c with
    | (.error e, h) => (.error e, h)
    | (.ok (), h) => (.ok (), h.setHealth state)

/-- Adds repetitions of a component, from one on, up to the first that cannot be added. -/
def addRepetitions (layers : Layers) (componentType : String) :
    Nat → Nat → Graph → Except SemanticError Unit × Graph
  | 0, _, g => (.ok (), g)
  | count + 1, repetition, g =>
    match addRepetition layers componentType repetition g with
    | (.error e, h) => (.error e, h)
    | (.ok (), h) => addRepetitions layers componentType count (repetition + 1) h

/-- How often a component is to be repeated. Its code sees a component without properties. -/
def repetitions (g : Graph) (layers : Layers) (componentType : String) :
    Except SemanticError Nat := do
  let blank := Component.blank componentType
  let count ← ((layers.intOr ⟨g, 0⟩ .repetition 1).run ⟨some blank, none⟩).1
  if count.toInt < 0 then throw (.negativeRepetition componentType count)
  return count.toInt.toNat

/-- Adds the components of a definition and gives their number. -/
def addDefinition (defaults : Option (List (Spanned Property))) (d : ComponentDefinition) :
    Work Graph Nat :=
  Work.of fun g =>
    let componentType := d.componentType.node
    let layers := Layers.of d.properties defaults componentType
    match repetitions g layers componentType with
    | .error e => (.error e, g)
    | .ok count =>
      let (result, h) := addRepetitions layers componentType count 0 g
      (result.map fun _ => count, h)

end InfraGraph.Interpretation
