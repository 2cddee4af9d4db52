import InfraGraph.Proofs.Graph.RelationPass
import InfraGraph.Proofs.Interpretation.Growth
import Mathlib.Algebra.GroupWithZero.Nat

/-!
# What the summary of a text counts

A text that was put into a graph is summed up in three numbers. They are taken while the passes run:
the number of repetitions from what the definitions ask for, the number of relations from what the
components wait for, and the number of events from the definitions. That these are also the numbers
of components, relations and events in the graph is due to nothing being replaced on the way: each
repetition goes behind the components that are there, each pending relation adds one edge, and each
definition of an event adds one event.

## Main results

* `repeatsBy_of_repetitions` — what a definition is repeated by.
* `exists_populates_of_addComponents` — the first pass adds a batch for every definition.
* `connectAll_eq_ok` — the relation pass adds an edge for everything that is waited for.
* `interpret_accounts` — the summary counts what was added to the graph.
-/

namespace InfraGraph

namespace Graph

/-! ## Edges -/

private theorem relations_length_of_connect {g h : Graph} {p : PendingRelation} {r : Relation}
    (hconnect : g.connect p = (.ok r, h)) : h.relations.length = g.relations.length + 1 := by
  rw [eq_append_of_addRelation (addRelation_of_connect hconnect)]
  simp

/-- Pending relations that can all be connected add an edge each. -/
theorem connectAll_eq_ok {ps : List PendingRelation} {g h : Graph} {n : Nat}
    (hall : connectAll ps g = (.ok n, h)) :
    n = ps.length ∧ h.relations.length = g.relations.length + n := by
  induction ps generalizing g n with
  | nil =>
      cases hall
      exact ⟨rfl, rfl⟩
  | cons p rest ih =>
      unfold connectAll at hall
      rcases hone : g.connect p with ⟨cause | r, k⟩
      · rw [hone] at hall
        cases hall
      · rw [hone] at hall
        dsimp only at hall
        rcases hrest : connectAll rest k with ⟨cause | m, l⟩
        · rw [hrest] at hall
          cases hall
        · rw [hrest] at hall
          obtain ⟨rfl, rfl⟩ : n = m + 1 ∧ h = l := by
            cases hall
            exact ⟨rfl, rfl⟩
          obtain ⟨hm, hlength⟩ := ih hrest
          have hedge := relations_length_of_connect hone
          constructor
          · rw [List.length_cons, hm]
          · omega

end Graph

namespace Interpretation

open Definition (Definitions Literal Property Spanned ComponentDefinition)
open Effect

/-! ## Repetitions -/

/-- What a definition is repeated by: the integer that is found, once and for all, in the graph so
far and for the number zero, or one where nothing is found. -/
inductive RepeatsBy (g : Graph) (layers : Layers) (componentType : String) : Nat → Prop where
  | absent (after : Block.Subject)
      (hnone : (layers.lookup? ⟨g, 0⟩ .repetition).run ⟨some (.blank componentType), none⟩ =
        (.ok none, after)) :
      RepeatsBy g layers componentType 1
  | given (n : Int64) (source : String) (after : Block.Subject) (count : Nat)
      (hfound : (layers.lookup? ⟨g, 0⟩ .repetition).run ⟨some (.blank componentType), none⟩ =
        (.ok (some (.int n, source)), after))
      (hcount : n.toInt = count) :
      RepeatsBy g layers componentType count

/-- The components that are built and registered one after the other, from a number on. -/
inductive Repeats (layers : Layers) (componentType : String) :
    Nat → Graph → List Component → Graph → Prop where
  | nil (repetition : Nat) (g : Graph) : Repeats layers componentType repetition g [] g
  | cons {repetition : Nat} {g k h : Graph} {c : Component} {cs : List Component}
      {state : HealthState}
      (hbuild : (buildComponent ⟨g, Int64.ofNat repetition⟩ layers componentType).run
        (.blank componentType) = (.ok state, c))
      (hadd : g.addComponent c = (.ok (), k))
      (hrest : Repeats layers componentType (repetition + 1) (k.setHealth state) cs h) :
      Repeats layers componentType repetition g (c :: cs) h

section Repetitions

variable {layers : Layers} {componentType : String} {count repetition : Nat} {g h : Graph}

/-- The number of repetitions is what the definition is repeated by. -/
theorem repeatsBy_of_repetitions (hcount : repetitions g layers componentType = .ok count) :
    RepeatsBy g layers componentType count := by
  unfold repetitions at hcount
  obtain ⟨n, hn, hrest⟩ := Block.exists_of_bind_eq_ok hcount
  have hnonneg : ¬ n.toInt < 0 := by
    intro hneg
    rw [if_pos hneg] at hrest
    cases hrest
  rw [if_neg hnonneg] at hrest
  cases hrest
  have hrun := Prod.ext (y := (_, _)) hn rfl
  unfold Layers.intOr at hrun
  obtain ⟨found, after, hlookup, hmatch⟩ := run_bind_eq_ok hrun
  have hnat : n.toInt = n.toInt.toNat := by omega
  rcases found with _ | ⟨v, source⟩
  · cases hmatch
    exact .absent _ hlookup
  · cases v with
    | int m =>
        cases hmatch
        exact .given n source _ _ hlookup hnat
    | _ => cases hmatch

private theorem Repeats.componentList_eq {cs : List Component}
    (hcs : Repeats layers componentType repetition g cs h) :
    h.componentList = g.componentList ++ cs := by
  induction hcs with
  | nil => rw [List.append_nil]
  | @cons _ g k _ c _ state _ hadd _ ih =>
      have happend := Graph.componentList_addComponent hadd
      have hone : (k.setHealth state).componentList = g.componentList ++ [c] := happend
      rw [ih, hone, List.append_assoc, List.singleton_append]

private theorem exists_repeats_of_addRepetitions
    (hall : addRepetitions layers componentType count repetition g = (.ok (), h)) :
    ∃ cs : List Component, cs.length = count ∧
      Repeats layers componentType repetition g cs h := by
  induction count generalizing repetition g with
  | zero =>
      cases hall
      exact ⟨[], rfl, .nil _ _⟩
  | succ count ih =>
      obtain ⟨l, hone, hmore⟩ := addRepetitions_succ_eq_ok_iff.1 hall
      obtain ⟨state, c, k, hbuild, hadd, rfl⟩ := addRepetition_eq_ok_iff.1 hone
      obtain ⟨cs, hlength, hrest⟩ := ih hmore
      exact ⟨c :: cs, by rw [List.length_cons, hlength], .cons hbuild hadd hrest⟩

end Repetitions

/-! ## The first pass -/

/-- Definitions and the components they stand for, a batch for each, counted and added where the
batches before it have been. -/
inductive Populates (defaults : Option (List (Spanned Property))) :
    Graph → List (Spanned ComponentDefinition) → List (List Component) → Graph → Prop where
  | nil (g : Graph) : Populates defaults g [] [] g
  | cons {g k h : Graph} {d : Spanned ComponentDefinition}
      {ds : List (Spanned ComponentDefinition)} {batch : List Component}
      {batches : List (List Component)}
      (hcount : RepeatsBy g (layersOf defaults d.node) d.node.componentType.node batch.length)
      (hbatch : Repeats (layersOf defaults d.node) d.node.componentType.node 0 g batch k)
      (hrest : Populates defaults k ds batches h) :
      Populates defaults g (d :: ds) (batch :: batches) h

section Population

variable {defaults : Option (List (Spanned Property))} {g h : Graph}
  {ds : List (Spanned ComponentDefinition)} {batches : List (List Component)}

private theorem Populates.componentList_eq (hall : Populates defaults g ds batches h) :
    h.componentList = g.componentList ++ batches.flatten := by
  induction hall with
  | nil => rw [List.flatten_nil, List.append_nil]
  | cons _ hbatch _ ih =>
      rw [ih, hbatch.componentList_eq, List.flatten_cons, List.append_assoc]

/-- The first pass adds a batch for each definition, and counts them all. -/
theorem exists_populates_of_addComponents {n : Nat}
    (hrun : (addComponents defaults ds).run g = (.ok n, h)) :
    ∃ batches, Populates defaults g ds batches h ∧ n = (batches.map List.length).sum := by
  induction ds generalizing g n with
  | nil =>
      cases hrun
      exact ⟨[], .nil _, rfl⟩
  | cons d rest ih =>
      obtain ⟨a, k, b, hfirst, hmore, rfl⟩ := addComponents_cons_eq_ok_iff.1 hrun
      obtain ⟨hcount, hadd⟩ := addDefinition_eq_ok_iff.1 hfirst
      obtain ⟨batch, rfl, hbatch⟩ := exists_repeats_of_addRepetitions hadd
      obtain ⟨batches, hrest, rfl⟩ := ih hmore
      refine ⟨batch :: batches, .cons (repeatsBy_of_repetitions hcount) hbatch hrest, ?_⟩
      rw [List.map_cons, List.sum_cons]

end Population

/-! ## Texts -/

/-- A summary counts what definitions added to a graph `g`: batches of components, with which the
relation pass began at `k`, and relations and events, with which it all ended at `h`. -/
structure Accounts (g : Graph) (d : Definitions) (s : Summary) (h : Graph)
    (batches : List (List Component)) (k : Graph) : Prop where
  begun : (addComponents (defaultsOf d) d.components).run g = (.ok s.components, k)
  /-- There is a batch for each definition, as large as the definition says. -/
  populates : Populates (defaultsOf d) g d.components batches k
  components : s.components = (batches.map List.length).sum
  registered : k.componentList = g.componentList ++ batches.flatten
  /-- The components keep their places when the relation pass takes from them what they wait for. -/
  componentList : h.componentList = k.componentList.map fun c => { c with pending := [] }
  componentCount : h.componentList.length = g.componentList.length + s.components
  /-- What components of earlier texts still wait for counts, too. -/
  relations : s.relations = (k.componentList.flatMap Component.pending).length
  relationCount : h.relationList.length = g.relationList.length + s.relations
  events : s.events = d.events.length
  eventCount : h.events.length = g.events.length + s.events

/-- If definitions can be put into a graph, their summary counts what is in the graph for them. -/
theorem interpret_accounts (clock : Clock) (d : Definitions) (g h : Graph) (s : Summary)
    (hrun : (interpret clock d).run g = (.ok s, h)) :
    ∃ batches k, Accounts g d s h batches k := by
  obtain ⟨k, l, hfirst, hsecond, hthird⟩ := interpret_eq_ok_iff.1 hrun
  obtain ⟨batches, hall, hcomponents⟩ := exists_populates_of_addComponents hfirst
  obtain ⟨hrelations, hedges⟩ := Graph.connectAll_eq_ok hsecond
  obtain ⟨hevents, es, hes, rfl⟩ := addEvents_eq_ok hthird
  have hregistered := Registered.of_reaches
    (keeps_addComponents (defaultsOf d) d.components g)
  have hconnected := connected_resolveRelations k
  rw [hfirst] at hregistered
  rw [hsecond] at hconnected
  have hlist : k.componentList = g.componentList ++ batches.flatten := hall.componentList_eq
  have hemptied : l.componentList = k.componentList.map fun c => { c with pending := [] } :=
    hconnected.componentList_eq
  refine ⟨batches, k, ?_⟩
  constructor
  case begun => exact hfirst
  case populates => exact hall
  case components => exact hcomponents
  case registered => exact hlist
  case componentList => exact hemptied
  case componentCount =>
      show l.componentList.length = g.componentList.length + s.components
      rw [hemptied, List.length_map, hlist, List.length_append, List.length_flatten, hcomponents]
  case relations => exact hrelations
  case relationCount =>
      show (l.relations.map Prod.snd).length = (g.relations.map Prod.snd).length + s.relations
      rw [List.length_map, List.length_map, ← hregistered.relations]
      exact hedges
  case events => exact hevents
  case eventCount =>
      show (l.events ++ es).length = g.events.length + s.events
      rw [List.length_append, hes.length_eq, hconnected.events, hregistered.events, hevents]

/-- Two hosts that are counted by code, and one that an earlier text has left waiting. -/
theorem interpret_accounts_hosts :
    let noon : Clock := fun _ => "2024-03-01T12:00:00Z"
    let host := ComponentDefinition.ofEntries "Host"
    let relations := (Keyword.relations, Literal.list [Definition.nowhere (.string "db")])
    let g := ((interpret noon ⟨none, [host [(.name, .string "cache"), relations], host []], []⟩).run
      Graph.empty).2
    let d : Definitions := ⟨none, [host [(.name, .code "\"web-\" + str(repeat_index)"), relations,
      (.repetition, .code "1 + graph.component_count()")], host [(.name, .string "db")]], []⟩
    ∃ h batches k, (interpret noon d).run g = (.ok ⟨3, 3, 0⟩, h) ∧
      Accounts g d ⟨3, 3, 0⟩ h batches k := by
  intro noon host relations g d
  have hsome : ((interpret noon d).run g).1.toOption = some ⟨3, 3, 0⟩ := by decide +kernel
  obtain ⟨h, hrun⟩ := exists_run_of_toOption hsome
  obtain ⟨batches, k, haccounts⟩ := interpret_accounts noon d g h ⟨3, 3, 0⟩ hrun
  exact ⟨h, batches, k, hrun, haccounts⟩

end Interpretation

end InfraGraph
