import InfraGraph.Proofs.Block.WellFormed
import InfraGraph.Proofs.Entries.Overlay
import InfraGraph.Proofs.Interpretation.Layers
import InfraGraph.Proofs.Interpretation.Lookup

/-!
# How the layers are merged

Maps and lists of both layers are merged. Each layer contributes its part, the defaults first, so
that what they do to the subject is seen by the element's own code: nothing where it holds nothing,
and otherwise what it holds, which must be of the right type. Own items go before those of the
defaults; own entries are laid over those of the defaults, whose keys keep their places.

## Main results

* `Merge.run_eq` — maps and lists are merged in the same way: each layer contributes its part.
* `Merge.contribution_run_eq_ok_iff` — what a layer contributes.
* `Layers.merge_rules` — when the layers can be merged, and what they make.
-/

namespace InfraGraph.Interpretation

open Block (Surroundings Subject)
open Definition (Literal Property Spanned nowhere)
open Effect

/-! ## Well-formed values -/

private theorem maintains_evaluateCode {around : Surroundings} (haround : around.WellFormed)
    (key : Keyword) (source code : String) :
    Maintains Subject.WellFormed (evaluateCode around key source code) Value.WellFormed := by
  intro s hs v t hrun
  rw [evaluateCode, run_of] at hrun
  exact Block.evaluateText_wellFormed haround hs hrun

mutual

private theorem maintains_evaluate {around : Surroundings} (haround : around.WellFormed)
    (key : Keyword) (source : String) :
    ∀ l : Literal, Maintains Subject.WellFormed (evaluate around key source l) Value.WellFormed
  | .string _ => .pure (by simp)
  | .int _ => .pure (by simp)
  | .float _ => .pure (by simp)
  | .bool _ => .pure (by simp)
  | .code code => maintains_evaluateCode haround key source code
  | .list items =>
      .bind (maintains_evaluateItems haround key source items) fun _ hvalues =>
        .pure (Value.wellFormed_list.2 hvalues)
  | .object members =>
      .bind (maintains_evaluateMembers haround key source (by simp) members) fun _ hdone =>
        .pure hdone

theorem maintains_evaluateItems {around : Surroundings} (haround : around.WellFormed)
    (key : Keyword) (source : String) :
    ∀ items : List (Spanned Literal), Maintains Subject.WellFormed
      (evaluateItems around key source items) fun values => ∀ v ∈ values, v.WellFormed
  | [] => .pure (by simp)
  | ⟨_, item⟩ :: rest =>
      .bind (maintains_evaluate haround key source item) fun _ hv =>
        .bind (maintains_evaluateItems haround key source rest) fun _ hmore =>
          .pure (List.forall_mem_cons.2 ⟨hv, hmore⟩)

theorem maintains_evaluateMembers {around : Surroundings} (haround : around.WellFormed)
    (key : Keyword) (source : String) {done : Entries Value}
    (hdone : (Value.map done).WellFormed) :
    ∀ members : List (Spanned String × Spanned Literal), Maintains Subject.WellFormed
      (evaluateMembers around key source done members) fun entries =>
        (Value.map entries).WellFormed
  | [] => .pure hdone
  | (name, ⟨_, value⟩) :: rest =>
      .bind (maintains_evaluate haround key source value) fun _ hv =>
        maintains_evaluateMembers haround key source
          (Value.wellFormed_insert hdone name.node hv) rest

end

namespace Layers

/-- What a layer holds is well-formed, and so is the subject after it. -/
theorem Holds.wellFormed {around : Surroundings} (haround : around.WellFormed) {layers : Layers}
    {key : Keyword} {layer : Layer} {s t : Subject} (hs : s.WellFormed) {held : Option Value}
    (h : layers.Holds around key layer s (.ok held) t) :
    (∀ v, held = some v → v.WellFormed) ∧ t.WellFormed := by
  cases h with
  | missing _ => exact ⟨by simp, hs⟩
  | null hlast hrun =>
      have hnull := maintains_evaluate haround key _ _ s hs _ t hrun
      exact ⟨by simp, hnull.2⟩
  | value hlast hrun hv =>
      have hvalue := maintains_evaluate haround key _ _ s hs _ t hrun
      refine ⟨?_, hvalue.2⟩
      rintro _ ⟨⟩
      exact hvalue.1

end Layers

/-! ## Maps and lists -/

namespace Merge

variable {α : Type}

/-- A part as a value. -/
def value : Merge α → α → Value
  | map, entries => .map entries
  | list, items => .list items

/-- What a layer holds has this part. -/
def Part (x : Merge α) (held : Option Value) (a : α) : Prop :=
  held = none ∧ a = x.absent ∨ held = some (x.value a)

/-- The part that one of the layers contributes. -/
def contribution (around : Surroundings) (layers : Layers) (key : Keyword) (x : Merge α)
    (layer : Layer) : Work Subject α :=
  x.contribute key (layers.source layer)
    (layerValue? around (layers.properties layer) (layers.source layer) key)

variable {around : Surroundings} {layers : Layers} {key : Keyword} {x : Merge α} {layer : Layer}
  {s t : Subject}

private theorem part?_eq_some_iff {v : Value} {a : α} : x.part? v = some a ↔ v = x.value a := by
  cases x <;> cases v <;> simp [part?, value, eq_comm]

private theorem run_ofResult (r : Except SemanticError α) (s : Subject) :
    (ofResult r : Work Subject α).run s = (r, s) := by
  cases r <;> rfl

/-- A layer contributes the part of what it holds. -/
theorem contribution_run {r : Except SemanticError (Option Value)}
    (h : layers.Holds around key layer s r t) :
    (x.contribution around layers key layer).run s =
      (r.bind (x.judge key (layers.source layer)), t) := by
  unfold contribution contribute
  rw [run_bind, h.run]
  cases r with
  | error e => rfl
  | ok held => exact run_ofResult _ t

/-- The defaults contribute their part and then the element does. -/
theorem run_eq (x : Merge α) : x.run around layers key = do
    let base ← x.contribution around layers key .defaults
    let own ← x.contribution around layers key .own
    return x.join base own := rfl

/-! ### What comes of it -/

/-- A part of a well-formed map has each key once. -/
theorem Part.nodup_keys {held : Option Value} {entries : Entries Value}
    (h : map.Part held entries) (hheld : ∀ v, held = some v → v.WellFormed) :
    (Entries.keys entries).Nodup := by
  rcases h with ⟨-, rfl⟩ | hmap
  · exact List.nodup_nil
  · exact (Value.wellFormed_map.1 (hheld _ hmap)).1

private theorem judge_eq_ok_iff {held : Option Value} {a : α} :
    x.judge key (layers.source layer) held = .ok a ↔ x.Part held a := by
  unfold Part
  cases held with
  | none => simp [judge, eq_comm]
  | some v =>
      simp only [reduceCtorEq, false_and, false_or, Option.some.injEq, ← part?_eq_some_iff]
      cases hv : x.part? v with
      | none => simp [judge, hv]
      | some b => simp [judge, hv]

/-- Only a value of another type is refused. -/
theorem judge_eq_error_iff {held : Option Value} {e : SemanticError} :
    x.judge key (layers.source layer) held = .error e ↔ ∃ v, held = some v ∧ x.part? v = none ∧
      e = Layers.mismatch key x.expected v (layers.source layer) := by
  cases held with
  | none => simp [judge]
  | some v =>
      cases hv : x.part? v with
      | none => simp [judge, hv, eq_comm]
      | some a => simp [judge, hv]

/-- A layer contributes a part just if it holds something with this part. -/
theorem contribution_run_eq_ok_iff {a : α} :
    (x.contribution around layers key layer).run s = (.ok a, t) ↔
      ∃ held, layers.Holds around key layer s (.ok held) t ∧ x.Part held a := by
  constructor
  · intro hrun
    obtain ⟨r, u, hholds⟩ := Layers.exists_holds around layers key layer s
    rw [contribution_run hholds] at hrun
    obtain ⟨hresult, rfl⟩ := Prod.mk.inj hrun
    cases r with
    | error e => cases hresult
    | ok held => exact ⟨held, hholds, judge_eq_ok_iff.1 hresult⟩
  · rintro ⟨held, hholds, hpart⟩
    rw [contribution_run hholds]
    exact Prod.ext (judge_eq_ok_iff.2 hpart) rfl

/-- The layers are merged if both are evaluated and each has its part. -/
theorem run_eq_ok_iff {a : α} :
    (x.run around layers key).run s = (.ok a, t) ↔
      ∃ m D O base own, layers.Holds around key .defaults s (.ok D) m ∧
        layers.Holds around key .own m (.ok O) t ∧ x.Part D base ∧ x.Part O own ∧
        a = x.join base own := by
  rw [run_eq]
  constructor
  · intro hrun
    obtain ⟨base, m, hbase, hrest⟩ := run_bind_eq_ok hrun
    obtain ⟨D, hD, hpart⟩ := contribution_run_eq_ok_iff.1 hbase
    obtain ⟨own, u, hown, hlast⟩ := run_bind_eq_ok hrest
    obtain ⟨O, hO, hpart'⟩ := contribution_run_eq_ok_iff.1 hown
    cases hlast
    exact ⟨m, D, O, base, own, hD, hO, hpart, hpart', rfl⟩
  · rintro ⟨m, D, O, base, own, hD, hO, hbase, hown, rfl⟩
    rw [run_bind, contribution_run_eq_ok_iff.2 ⟨D, hD, hbase⟩]
    dsimp only
    rw [run_bind, contribution_run_eq_ok_iff.2 ⟨O, hO, hown⟩]
    rfl

/-- What both layers hold is known already. -/
theorem run_eq_ok_iff_of_holds {m u : Subject} {D O : Option Value} {a : α}
    (hD : layers.Holds around key .defaults s (.ok D) m)
    (hO : layers.Holds around key .own m (.ok O) t) :
    (x.run around layers key).run s = (.ok a, u) ↔
      u = t ∧ ∃ base own, x.Part D base ∧ x.Part O own ∧ a = x.join base own := by
  rw [run_eq_ok_iff]
  constructor
  · rintro ⟨m', D', O', base, own, hD', hO', hparts⟩
    obtain ⟨⟨⟩, rfl⟩ := hD'.unique hD
    obtain ⟨⟨⟩, rfl⟩ := hO'.unique hO
    exact ⟨rfl, base, own, hparts⟩
  · rintro ⟨rfl, base, own, hparts⟩
    exact ⟨m, D, O, base, own, hD, hO, hparts⟩

end Merge

/-! ## Lists of strings -/

namespace Layers

variable {around : Surroundings} {layers : Layers} {key : Keyword} {s t : Subject}

private theorem stringsOf_eq_ok_iff {source : String} {items : List Value} {strings : List String} :
    stringsOf key source items = .ok strings ↔ items = strings.map .string := by
  constructor
  · intro h
    induction items generalizing strings with
    | nil =>
        cases h
        rfl
    | cons v rest ih =>
        cases v with
        | string text =>
            rw [stringsOf] at h
            cases hrest : stringsOf key source rest with
            | error e =>
                rw [hrest] at h
                cases h
            | ok more =>
                rw [hrest] at h
                cases h
                rw [ih hrest]
                rfl
        | _ => cases h
  · rintro rfl
    induction strings with
    | nil => rfl
    | cons text more ih =>
        rw [List.map_cons, stringsOf, ih]
        rfl

/-- The strings are those of the merged list. -/
theorem mergeStrings_run {items : List Value}
    (h : (layers.mergeList around key).run s = (.ok items, t)) :
    (layers.mergeStrings around key).run s = (stringsOf key layers.element items, t) := by
  unfold mergeStrings
  rw [run_bind, h]
  dsimp only
  cases stringsOf key layers.element items with
  | ok strings => rfl
  | error e => rfl

/-- A list of strings is merged as a list, all of whose items are strings. -/
theorem mergeStrings_run_eq_ok_iff {strings : List String} :
    (layers.mergeStrings around key).run s = (.ok strings, t) ↔
      (layers.mergeList around key).run s = (.ok (strings.map .string), t) := by
  constructor
  · intro hrun
    obtain ⟨items, u, hitems, -⟩ := run_bind_eq_ok hrun
    rw [mergeStrings_run hitems] at hrun
    obtain ⟨hstrings, rfl⟩ := Prod.mk.inj hrun
    rw [hitems, stringsOf_eq_ok_iff.1 hstrings]
  · intro hrun
    rw [mergeStrings_run hrun, stringsOf_eq_ok_iff.2 rfl]

/-! ## The rules -/

/-- Where each layer holds something or nothing, maps are merged if each holds a map or nothing, and
lists if each holds a list or nothing. The merged map has the keys of the defaults in their order,
with the own values where there are any, and then the other own entries in theirs; the merged list
has the own items before those of the defaults. A list of strings is merged just if the list is and
all its items are strings, which are given in the order of the list. The maps that code can see have
each key once, as all maps have that are made by writing. -/
theorem merge_rules {around : Surroundings} (haround : around.WellFormed) (layers : Layers)
    (key : Keyword) {s m t : Subject} (hs : s.WellFormed) {D O : Option Value}
    (hD : layers.Holds around key .defaults s (.ok D) m)
    (hO : layers.Holds around key .own m (.ok O) t) :
    (∀ merged u, (layers.mergeMap around key).run s = (.ok merged, u) ↔
      u = t ∧ ∃ base own, Merge.map.Part D base ∧ Merge.map.Part O own ∧
        merged = Entries.overlay base own) ∧
    (∀ merged u, (layers.mergeList around key).run s = (.ok merged, u) ↔
      u = t ∧ ∃ base own, Merge.list.Part D base ∧ Merge.list.Part O own ∧
        merged = own ++ base) ∧
    (∀ strings u, (layers.mergeStrings around key).run s = (.ok strings, u) ↔
      (layers.mergeList around key).run s = (.ok (strings.map .string), u)) := by
  obtain ⟨hbase, hm⟩ := hD.wellFormed haround hs
  obtain ⟨hown, -⟩ := hO.wellFormed haround hm
  refine ⟨fun merged u => ?_, fun merged u => Merge.list.run_eq_ok_iff_of_holds hD hO,
    fun strings u => mergeStrings_run_eq_ok_iff⟩
  have hjoin : ∀ base own, Merge.map.Part D base → Merge.map.Part O own →
      Merge.map.join base own = Entries.overlay base own := fun base own hpart hpart' =>
    Entries.extend_eq_overlay (hpart.nodup_keys hbase) (hpart'.nodup_keys hown)
  rw [show layers.mergeMap around key = Merge.map.run around layers key from rfl,
    Merge.map.run_eq_ok_iff_of_holds hD hO]
  constructor
  · rintro ⟨hu, base, own, hpart, hpart', rfl⟩
    exact ⟨hu, base, own, hpart, hpart', hjoin base own hpart hpart'⟩
  · rintro ⟨hu, base, own, hpart, hpart', rfl⟩
    exact ⟨hu, base, own, hpart, hpart', (hjoin base own hpart hpart').symm⟩

/-- A key that both layers have keeps the place that it has in the defaults. -/
theorem merge_rules_shared :
    let around : Surroundings := ⟨Graph.empty, 0⟩
    let s : Subject := ⟨none, none⟩
    let member (k v : String) := (nowhere k, nowhere (Literal.string v))
    let object (members : List (Spanned String × Spanned Literal)) : List Property :=
      [⟨nowhere .data, nowhere (.object members)⟩]
    let layers : Layers :=
      ⟨object [member "c" "own", member "a" "own"],
        object [member "a" "base", member "b" "base"], "web"⟩
    around.WellFormed ∧ s.WellFormed ∧
      layers.Holds around .data .defaults s
        (.ok (some (.map [("a", .string "base"), ("b", .string "base")]))) s ∧
      layers.Holds around .data .own s
        (.ok (some (.map [("c", .string "own"), ("a", .string "own")]))) s ∧
      (layers.mergeMap around .data).run s =
        (.ok [("a", .string "own"), ("b", .string "base"), ("c", .string "own")], s) := by
  intro around s member object layers
  have haround : around.WellFormed := by
    rintro c ⟨⟩
  have hs : s.WellFormed := ⟨by rintro _ ⟨⟩, by rintro _ ⟨⟩⟩
  have hD : layers.Holds around .data .defaults s
      (.ok (some (.map [("a", .string "base"), ("b", .string "base")]))) s :=
    .value ⟨[], [], rfl, rfl, by simp⟩ rfl rfl
  have hO : layers.Holds around .data .own s
      (.ok (some (.map [("c", .string "own"), ("a", .string "own")]))) s :=
    .value ⟨[], [], rfl, rfl, by simp⟩ rfl rfl
  refine ⟨haround, hs, hD, hO, ?_⟩
  exact ((merge_rules haround layers .data hs hD hO).1 _ s).2
    ⟨rfl, _, _, .inr rfl, .inr rfl, rfl⟩

end Layers

end InfraGraph.Interpretation
