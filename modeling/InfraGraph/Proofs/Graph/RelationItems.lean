import InfraGraph.Proofs.Graph.RelationPass
import InfraGraph.Proofs.Text.Lines

/-!
# Relations as components write them

An item of a list of relations may have a marker, no type or too many separators. Reading brings it
into one form, a marker if the relation is reverse, a target, one separator and a type, from which
the same relation is read again. The external id that is written down on reading is that of the edge
only if the target is the uid that it is resolved to, whichever way the edge points.

## Main results

* `read_item` — what is written in the one form is read as it was meant.
* `writable_read` — what is read can be written in it.
* `externalId_edgeTo_inj` — when an edge has the external id that was written down.
* `resolve?_connectAll` — adding edges does not change what references mean, in any graph.
* `read_codec` — reading, writing and the relation pass together.
-/

namespace InfraGraph

/-! ## Writing and reading -/

namespace PendingRelation

/-- The item that writes a relation. -/
def item (reverse : Bool) (target relationType : String) : String :=
  (if reverse then "<" else "") ++ target ++ "|" ++ relationType

/-- An item with these parts can be taken apart again. -/
structure Writable (reverse : Bool) (target relationType : String) : Prop where
  target_free : '|' ∉ target.toList
  type_free : '|' ∉ relationType.toList
  unmarked : reverse = false → target.toList.head? ≠ some '<'

/-- The relation with these parts that a component declares. -/
def ofParts (declaredBy : String) (reverse : Bool) (target relationType : String) :
    PendingRelation where
  declaredBy
  target
  relationType
  reverse
  externalId :=
    if reverse then InfraGraph.externalId target declaredBy
    else InfraGraph.externalId declaredBy target

/-- Whether there is a marker in front of an item, and what is behind it. -/
def takeMark : List Char → Bool × List Char
  | '<' :: cs => (true, cs)
  | cs => (false, cs)

/-- The target and the type of an item without its marker. -/
def targetAndType (cs : List Char) : String × String :=
  match Text.splitOn ['|'] cs with
  | [target, type] => (String.ofList target, String.ofList type)
  | target :: _ => (String.ofList target, defaultType)
  | [] => ("", defaultType)

/-- An item is read by its mark, its target and its type. -/
theorem read_eq_ofParts (declaredBy text : String) :
    read declaredBy text =
      ofParts declaredBy (takeMark text.toList).1 (targetAndType (takeMark text.toList).2).1
        (targetAndType (takeMark text.toList).2).2 := by
  rfl

private theorem takeMark_of_head_ne {cs : List Char} (h : cs.head? ≠ some '<') :
    takeMark cs = (false, cs) := by
  unfold takeMark
  split
  · exact absurd rfl h
  · rfl

private theorem targetAndType_append {target type : List Char} (htarget : '|' ∉ target)
    (htype : '|' ∉ type) :
    targetAndType (target ++ '|' :: type) = (String.ofList target, String.ofList type) := by
  have hpieces : Text.splitOn ['|'] (target ++ '|' :: type) = [target, type] := by
    rw [Text.splitOn_singleton]
    have hjoined : ['|'].intercalate [target, type] = target ++ '|' :: type := by
      simp [List.intercalate]
    rw [← hjoined]
    exact List.splitOn_intercalate _ (by simp [htarget, htype]) (by simp)
  rw [targetAndType, hpieces]

/-- A written item is read back into its parts. -/
theorem read_item (declaredBy : String) {reverse : Bool} {target relationType : String}
    (h : Writable reverse target relationType) :
    read declaredBy (item reverse target relationType) =
      ofParts declaredBy reverse target relationType := by
  have hmark : takeMark (item reverse target relationType).toList =
      (reverse, target.toList ++ '|' :: relationType.toList) := by
    cases reverse with
    | true => simp [item, takeMark]
    | false =>
        have hhead : (target.toList ++ '|' :: relationType.toList).head? ≠ some '<' := by
          cases htarget : target.toList with
          | nil => simp
          | cons c cs => simpa [htarget] using h.unmarked rfl
        simpa [item] using takeMark_of_head_ne hhead
  rw [read_eq_ofParts, hmark, targetAndType_append h.target_free h.type_free,
    String.ofList_toList, String.ofList_toList]

/-- The first piece of a text begins as the text does. -/
theorem head?_of_splitOn {x c : Char} {cs first : List Char} {more : List (List Char)}
    (hpieces : cs.splitOn x = first :: more) (hfirst : first.head? = some c) :
    cs.head? = some c := by
  have hjoined : [x].intercalate (cs.splitOn x) = cs := List.intercalate_splitOn x
  rw [hpieces] at hjoined
  rw [← hjoined]
  by_cases hmore : more = []
  · subst hmore
    simpa [List.intercalate] using hfirst
  · rw [Text.intercalate_cons _ _ hmore, List.append_assoc, List.head?_append, hfirst]
    rfl

/-- The target is the first piece of an item, and the type another one or the usual one. -/
theorem targetAndType_pieces (cs : List Char) :
    ∃ first more, cs.splitOn '|' = first :: more ∧
      (targetAndType cs).1 = String.ofList first ∧
      ((targetAndType cs).2 = defaultType ∨
        ∃ type ∈ more, (targetAndType cs).2 = String.ofList type) := by
  rw [targetAndType, Text.splitOn_singleton]
  match hpieces : cs.splitOn '|' with
  | [] => exact absurd hpieces (List.splitOn_ne_nil _ cs)
  | [first] => exact ⟨first, [], rfl, rfl, .inl rfl⟩
  | [first, type] => exact ⟨first, [type], rfl, rfl, .inr ⟨type, by simp, rfl⟩⟩
  | first :: second :: third :: rest => exact ⟨first, second :: third :: rest, rfl, rfl, .inl rfl⟩

private theorem head?_takeMark {cs : List Char} (h : (takeMark cs).1 = false) :
    (takeMark cs).2.head? ≠ some '<' := by
  unfold takeMark at *
  split at h
  · cases h
  · rename_i cs hcs
    intro hhead
    obtain ⟨rest, rfl⟩ := List.head?_eq_some_iff.1 hhead
    exact hcs rest rfl

private theorem writable_takeMark (cs : List Char) :
    Writable (takeMark cs).1 (targetAndType (takeMark cs).2).1
      (targetAndType (takeMark cs).2).2 := by
  obtain ⟨first, more, hpieces, htarget, htype⟩ := targetAndType_pieces (takeMark cs).2
  have hfree : ∀ piece ∈ first :: more, '|' ∉ piece := by
    rw [← hpieces]
    exact Text.notMem_of_mem_splitOn
  rw [htarget]
  refine ⟨?_, ?_, ?_⟩
  · rw [String.toList_ofList]
    exact hfree first List.mem_cons_self
  · rcases htype with htype | ⟨type, hmem, htype⟩
    · rw [htype]
      decide
    · rw [htype, String.toList_ofList]
      exact hfree type (List.mem_cons_of_mem first hmem)
  · intro hplain hhead
    rw [String.toList_ofList] at hhead
    exact head?_takeMark hplain (head?_of_splitOn hpieces hhead)

/-- Whatever is read can be written again: only the first marker is taken, and only where the
relation is reverse may the target begin with another one. -/
theorem writable_read (declaredBy text : String) :
    Writable (read declaredBy text).reverse (read declaredBy text).target
      (read declaredBy text).relationType := by
  rw [read_eq_ofParts]
  exact writable_takeMark text.toList

private theorem read_item_read (declaredBy text : String) :
    let p := read declaredBy text
    read declaredBy (item p.reverse p.target p.relationType) = p :=
  read_item declaredBy (writable_read declaredBy text)

end PendingRelation

/-! ## External ids -/

namespace Graph

open PendingRelation

/-- The external id that is written down on reading is that of the edge to the target itself. -/
theorem externalId_read (declaredBy text : String) :
    (read declaredBy text).externalId =
      (edgeTo (read declaredBy text) (read declaredBy text).target).externalId := by
  rw [read_eq_ofParts]
  generalize takeMark text.toList = marked
  unfold edgeTo ofParts
  dsimp only
  split <;> rfl

/-- Edges of one pending relation have the same external id only if its target is the same. -/
theorem externalId_edgeTo_inj {p : PendingRelation} {r t : String} :
    (edgeTo p r).externalId = (edgeTo p t).externalId ↔ r = t := by
  unfold edgeTo
  split
  · show r ++ " --> " ++ p.declaredBy = t ++ " --> " ++ p.declaredBy ↔ r = t
    rw [String.append_left_inj, String.append_left_inj]
  · show p.declaredBy ++ " --> " ++ r = p.declaredBy ++ " --> " ++ t ↔ r = t
    rw [String.append_right_inj]

/-! ## The pass, whatever the graph -/

section Pass

variable {g h k : Graph} {before rest : List PendingRelation} {p : PendingRelation} {n : Nat}

/-- The component when its pending relations have been taken. -/
def settled (c : Component) : Component := { c with pending := [] }

private theorem component?_withoutPending (g : Graph) (uid : String) :
    g.withoutPending.component? uid = (g.component? uid).map settled :=
  Entries.get?_map settled g.components uid

/-- Taking what the components wait for changes neither uids nor the index of names. -/
theorem resolve?_withoutPending (g : Graph) (reference : String) :
    g.withoutPending.resolve? reference = g.resolve? reference := by
  have hhas : g.withoutPending.hasComponent reference = g.hasComponent reference := by
    show (g.withoutPending.component? reference).isSome = (g.component? reference).isSome
    rw [component?_withoutPending, Option.isSome_map]
  have hnames : g.withoutPending.uidsOf reference = g.uidsOf reference := rfl
  unfold resolve? componentNamed?
  rw [hhas, hnames]
  rcases g.uidsOf reference with _ | ⟨uid, _ | ⟨other, more⟩⟩
  · rfl
  · simp only [Except.map, component?_withoutPending, Option.map_map, Function.comp_def, settled]
  · rfl

/-- Adding edges does not change what references mean. -/
theorem resolve?_connectAll (ps : List PendingRelation) (g : Graph) (reference : String) :
    (connectAll ps g).2.resolve? reference = g.resolve? reference := by
  refine connectAll_induction (P := fun h => h.resolve? reference = g.resolve? reference) rfl
    (fun h r k hh hadd => ?_) ps
  rw [eq_append_of_addRelation hadd]
  exact hh

/-- Edges are added behind the others. -/
theorem relations_prefix_connectAll (ps : List PendingRelation) (g : Graph) :
    g.relations <+: (connectAll ps g).2.relations := by
  refine connectAll_induction (P := fun h => g.relations <+: h.relations) List.prefix_rfl
    (fun h r k hh hadd => ?_) ps
  rw [eq_append_of_addRelation hadd]
  exact hh.trans (List.prefix_append _ _)

/-- Where a relation is connected, the pass goes on and counts it. -/
theorem connectAll_cons_of_ok {s : Relation} (hconnect : g.connect p = (.ok s, h))
    (rest : List PendingRelation) :
    connectAll (p :: rest) g = ((connectAll rest h).1.map (· + 1), (connectAll rest h).2) := by
  rw [connectAll, hconnect]

/-- Where a relation is not connected, the pass ends. -/
theorem connectAll_cons_of_error {e : SemanticError} (hconnect : g.connect p = (.error e, h))
    (rest : List PendingRelation) : connectAll (p :: rest) g = (.error e, h) := by
  rw [connectAll, hconnect]

/-- The pass over pending relations goes on from the graph that the first of them lead to. -/
theorem connectAll_append (hbefore : connectAll before g = (.ok n, k))
    (rest : List PendingRelation) :
    connectAll (before ++ rest) g =
      ((connectAll rest k).1.map (· + n), (connectAll rest k).2) := by
  induction before generalizing g n with
  | nil =>
      obtain ⟨hnone, rfl⟩ := Prod.mk.inj hbefore
      cases hnone
      show connectAll rest g = _
      rcases connectAll rest g with ⟨e | m, h⟩ <;> rfl
  | cons p before ih =>
      rw [List.cons_append]
      rcases hconnect : g.connect p with ⟨e | s, h⟩
      · rw [connectAll_cons_of_error hconnect] at hbefore
        cases hbefore
      · rw [connectAll_cons_of_ok hconnect] at hbefore ⊢
        obtain ⟨hcount, hgraph⟩ := Prod.mk.inj hbefore
        cases hmore : (connectAll before h).1 with
        | error e => rw [hmore] at hcount; cases hcount
        | ok m =>
            rw [hmore] at hcount
            cases hcount
            rw [ih (Prod.ext hmore hgraph)]
            rcases connectAll rest k with ⟨e | l, h'⟩ <;> rfl

/-- Once the pass has come to a pending relation whose target means something, it adds the edge to
that behind the others, or stops because there is an edge of that external id. -/
theorem resolveRelations_at {after : List PendingRelation} {r : String}
    (hpending : g.pending = before ++ p :: after)
    (hbefore : connectAll before g.withoutPending = (.ok n, k))
    (htarget : g.resolve? p.target = .ok (some r)) :
    g.resolveRelations = (.error (.duplicateRelation (edgeTo p r).externalId), k) ∨
      k.relations ++ [((edgeTo p r).externalId, edgeTo p r)] <+:
        g.resolveRelations.2.relations := by
  have hmeaning : k.resolve? p.target = .ok (some r) := by
    have hsame := resolve?_connectAll before g.withoutPending p.target
    rw [hbefore, resolve?_withoutPending, htarget] at hsame
    exact hsame
  have hconnect : k.connect p = k.addRelation (edgeTo p r) := by
    simp only [connect, edgeOf_eq_of_resolve? hmeaning]
  rw [resolveRelations, hpending, connectAll_append hbefore]
  rcases hadd : k.addRelation (edgeTo p r) with ⟨e | s, h⟩
  · left
    obtain ⟨-, rfl, rfl⟩ := addRelation_eq_error_iff.1 hadd
    rw [connectAll_cons_of_error (hconnect.trans hadd)]
    rfl
  · right
    rw [connectAll_cons_of_ok (hconnect.trans hadd)]
    have hedges : h.relations = k.relations ++ [((edgeTo p r).externalId, edgeTo p r)] := by
      rw [eq_append_of_addRelation hadd]
    rw [← hedges]
    exact relations_prefix_connectAll after h

end Pass

/-- Items are read into a form that they can be written in, and whatever is written in it is read as
it was meant. Where the pass comes to a relation that was read from an item, and its target means
the uid `r`, the edge that it adds, or finds to be there already, has the external id that was
written down on reading if and only if the target is written as `r`. -/
theorem read_codec (declaredBy : String) :
    (∀ text, let p := read declaredBy text
      read declaredBy (item p.reverse p.target p.relationType) = p) ∧
    (∀ reverse target relationType, '|' ∉ target.toList → '|' ∉ relationType.toList →
      (reverse = false → target.toList.head? ≠ some '<') →
      let p := read declaredBy (item reverse target relationType)
      p.reverse = reverse ∧ p.target = target ∧ p.relationType = relationType) ∧
    ∀ (text : String) (g k : Graph) before after n r,
      let p := read declaredBy text
      g.pending = before ++ p :: after → connectAll before g.withoutPending = (.ok n, k) →
      g.resolve? p.target = .ok (some r) →
      let edge := edgeTo p r
      (g.resolveRelations = (.error (.duplicateRelation edge.externalId), k) ∨
        k.relations ++ [(edge.externalId, edge)] <+: g.resolveRelations.2.relations) ∧
      (edge.externalId = p.externalId ↔ r = p.target) := by
  refine ⟨read_item_read declaredBy, fun reverse target relationType htarget htype hplain => ?_,
    fun text g k before after n r => ?_⟩
  · intro p
    have hread : p = ofParts declaredBy reverse target relationType :=
      read_item declaredBy ⟨htarget, htype, hplain⟩
    rw [hread]
    exact ⟨rfl, rfl, rfl⟩
  · intro p hpending hbefore hmeaning edge
    refine ⟨resolveRelations_at hpending hbefore hmeaning, ?_⟩
    rw [externalId_read, externalId_edgeTo_inj]

/-- Two hosts, one of which is called by the other one under its name. -/
def callingHosts : Graph := empty.run [
  .addComponent { Component.blank "Host" with
    uid := "urn:web", name := "web", pending := [read "urn:web" "<db|calls"] },
  .addComponent { Component.blank "Host" with uid := "urn:db", name := "db" }]

/-- The relation is read as one from `db`, and becomes an edge from `urn:db`. -/
theorem read_codec_named :
    let p := read "urn:web" "<db|calls"
    let edge := edgeTo p "urn:db"
    callingHosts.pending = [] ++ p :: [] ∧ callingHosts.resolve? p.target = .ok (some "urn:db") ∧
    edge.externalId ≠ p.externalId ∧
    [(edge.externalId, edge)] <+: callingHosts.resolveRelations.2.relations := by
  intro p edge
  obtain ⟨-, -, hpass⟩ := read_codec "urn:web"
  obtain ⟨hadded, hid⟩ := hpass "<db|calls" callingHosts _ [] [] 0 "urn:db" rfl rfl rfl
  have hdiffers : edge.externalId ≠ p.externalId := fun h => absurd (hid.1 h) (by decide)
  refine ⟨rfl, rfl, hdiffers, ?_⟩
  rcases hadded with hstopped | hadded
  · exact absurd (congrArg Prod.fst hstopped) (by decide)
  · exact hadded

end Graph

end InfraGraph
