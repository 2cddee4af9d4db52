import InfraGraph.Proofs.Interpretation.Merging

/-!
# Where a value of the wrong type comes from

A value of the wrong type is refused with an error that names its source: the element, or the
defaults. Code that fails while a layer is evaluated has errors of its own, so every such error is
about a value that a layer holds. It names the layer that holds it, for a property that holds one
thing and for maps and lists alike. Lists of strings are the exception. Their items are looked at
only after the layers have been merged, and then it is always the element that is named, even for an
item of the defaults.

## Main results

* `Holds.ofCode` — what fails while a layer is evaluated is code.
* `Scalar.ask_mismatch_iff`, `Merge.run_mismatch_iff`, `mergeStrings_mismatch_iff` — who refuses
  which value.
* `Layers.mismatch_source` — so what the errors name as the source.
-/

namespace InfraGraph.Interpretation

open Block (Surroundings Subject)
open Definition (Literal Property Spanned nowhere)
open Effect

/-! ## Errors of code -/

/-- The error is one of code that stands under the keyword and belongs to the source. -/
def OfCode (key : Keyword) (source : String) (e : SemanticError) : Prop :=
  ∃ text errors, e = .evaluation key.text source text errors

section Code

variable (around : Surroundings) (key : Keyword) (source : String)

private theorem raises_evaluateCode (code : String) :
    Raises (evaluateCode around key source code) (OfCode key source) := by
  intro s e t hrun
  rw [evaluateCode, run_of] at hrun
  unfold Block.evaluateText at hrun
  dsimp only at hrun
  split at hrun
  · cases hrun
    exact ⟨_, _, rfl⟩
  · rename_i block _
    obtain ⟨hresult, -⟩ := Prod.mk.inj hrun
    cases houtcome : (Block.outcome around block s).1 with
    | error cause =>
        rw [houtcome] at hresult
        cases hresult
        exact ⟨_, _, rfl⟩
    | ok v =>
        rw [houtcome] at hresult
        cases hresult

mutual

private theorem raises_evaluate :
    ∀ l : Literal, Raises (evaluate around key source l) (OfCode key source)
  | .string _ => .pure _
  | .int _ => .pure _
  | .float _ => .pure _
  | .bool _ => .pure _
  | .code code => raises_evaluateCode around key source code
  | .list items => .bind (raises_evaluateItems items) fun _ => .pure _
  | .object members => .bind (raises_evaluateMembers [] members) fun _ => .pure _

theorem raises_evaluateItems :
    ∀ items : List (Spanned Literal),
      Raises (evaluateItems around key source items) (OfCode key source)
  | [] => .pure _
  | ⟨_, item⟩ :: rest =>
      .bind (raises_evaluate item) fun _ => .bind (raises_evaluateItems rest) fun _ => .pure _

theorem raises_evaluateMembers (done : Entries Value) :
    ∀ members : List (Spanned String × Spanned Literal),
      Raises (evaluateMembers around key source done members) (OfCode key source)
  | [] => .pure _
  | (_, ⟨_, value⟩) :: rest =>
      .bind (raises_evaluate value) fun _ => raises_evaluateMembers _ rest

end

end Code

variable {around : Surroundings} {layers : Layers} {key p : Keyword} {s t : Subject}
  {expected found source : String}

namespace Layers

/-- What fails while a layer is evaluated is code of this layer. -/
theorem Holds.ofCode {layer : Layer} {e : SemanticError}
    (h : layers.Holds around key layer s (.error e) t) : OfCode key (layers.source layer) e := by
  cases h with
  | failed _ hrun => exact raises_evaluate around key _ _ s e t hrun

/-- Looking at one layer never fails for a type. -/
theorem Holds.not_mismatch {layer : Layer}
    (h : layers.Holds around key layer s (.error (.typeMismatch p expected found source)) t) :
    False := by
  obtain ⟨text, errors, h⟩ := h.ofCode
  cases h

private theorem Finds.not_mismatch
    (h : layers.Finds around key s (.error (.typeMismatch p expected found source)) t) :
    False := by
  generalize hr : Except.error _ = r at h
  cases h with
  | own h => cases hr
  | failed h =>
      cases hr
      exact h.not_mismatch
  | @fallback m t r hown h =>
      cases r with
      | error e =>
          cases hr
          exact h.not_mismatch
      | ok held => cases hr

end Layers

/-! ## Properties that hold one thing -/

namespace Scalar

variable {α : Type} {x : Scalar α}

private theorem judge_eq_mismatch_iff {f : Option (Layer × Value)} :
    x.judge layers key f = .error (.typeMismatch p expected found source) ↔
      ∃ layer v, f = some (layer, v) ∧ x.fits? v = none ∧
        .typeMismatch p expected found source =
          Layers.mismatch key x.expected v (layers.source layer) := by
  rcases f with _ | ⟨layer, v⟩
  · cases x <;> simp [judge, absent]
  · constructor
    · intro h
      cases hv : x.fits? v with
      | some a =>
          simp only [judge, hv] at h
          cases h
      | none =>
          simp only [judge, hv] at h
          exact ⟨layer, v, rfl, hv, (Except.error.inj h).symm⟩
    · rintro ⟨layer, v, ⟨⟩, hv, herror⟩
      simp only [judge, hv, herror]

/-- Asking for a type fails just if a value is found that does not fit. -/
theorem ask_mismatch_iff :
    (x.ask around layers key).run s = (.error (.typeMismatch p expected found source), t) ↔
      ∃ layer v, layers.Finds around key s (.ok (some (layer, v))) t ∧ x.fits? v = none ∧
        .typeMismatch p expected found source =
          Layers.mismatch key x.expected v (layers.source layer) := by
  constructor
  · intro hrun
    obtain ⟨f, u, hfinds⟩ := Layers.exists_finds around layers key s
    rw [x.ask_run hfinds] at hrun
    obtain ⟨hresult, rfl⟩ := Prod.mk.inj hrun
    cases f with
    | error e =>
        cases hresult
        exact hfinds.not_mismatch.elim
    | ok f =>
        obtain ⟨layer, v, rfl, hv, herror⟩ := judge_eq_mismatch_iff.1 hresult
        exact ⟨layer, v, hfinds, hv, herror⟩
  · rintro ⟨layer, v, hfinds, hv, herror⟩
    rw [x.ask_run hfinds]
    exact Prod.ext (judge_eq_mismatch_iff.2 ⟨layer, v, rfl, hv, herror⟩) rfl

end Scalar

/-! ## Maps and lists -/

namespace Merge

variable {α : Type} {x : Merge α}

/-- The layers are not merged because a layer holds this value, which is of another type. -/
inductive Refuses (around : Surroundings) (layers : Layers) (key : Keyword) (x : Merge α)
    (s : Subject) : Layer → Value → Subject → Prop where
  | defaults {v : Value} {t : Subject}
      (hD : layers.Holds around key .defaults s (.ok (some v)) t) (hv : x.part? v = none) :
      Refuses around layers key x s .defaults v t
  | own {D : Option Value} {base : α} {m t : Subject} {v : Value}
      (hD : layers.Holds around key .defaults s (.ok D) m) (hbase : x.Part D base)
      (hO : layers.Holds around key .own m (.ok (some v)) t) (hv : x.part? v = none) :
      Refuses around layers key x s .own v t

private theorem contribution_mismatch_iff {layer : Layer} :
    (x.contribution around layers key layer).run s =
        (.error (.typeMismatch p expected found source), t) ↔
      ∃ v, layers.Holds around key layer s (.ok (some v)) t ∧ x.part? v = none ∧
        .typeMismatch p expected found source =
          Layers.mismatch key x.expected v (layers.source layer) := by
  constructor
  · intro hrun
    obtain ⟨r, u, hholds⟩ := Layers.exists_holds around layers key layer s
    rw [contribution_run hholds] at hrun
    obtain ⟨hresult, rfl⟩ := Prod.mk.inj hrun
    cases r with
    | error e =>
        cases hresult
        exact hholds.not_mismatch.elim
    | ok held =>
        obtain ⟨v, rfl, hv, herror⟩ := judge_eq_error_iff.1 hresult
        exact ⟨v, hholds, hv, herror⟩
  · rintro ⟨v, hholds, hv, herror⟩
    rw [contribution_run hholds]
    exact Prod.ext (judge_eq_error_iff.2 ⟨v, rfl, hv, herror⟩) rfl

/-- Merging fails for a type just if a layer holds a value of another one. -/
theorem run_mismatch_iff :
    (x.run around layers key).run s = (.error (.typeMismatch p expected found source), t) ↔
      ∃ layer v, x.Refuses around layers key s layer v t ∧
        .typeMismatch p expected found source =
          Layers.mismatch key x.expected v (layers.source layer) := by
  rw [run_eq]
  constructor
  · intro hrun
    rcases run_bind_eq_error_iff.1 hrun with hdefaults | ⟨base, m, hbase, hrest⟩
    · obtain ⟨v, hD, hv, herror⟩ := contribution_mismatch_iff.1 hdefaults
      exact ⟨.defaults, v, .defaults hD hv, herror⟩
    · obtain ⟨D, hD, hpart⟩ := contribution_run_eq_ok_iff.1 hbase
      rcases run_bind_eq_error_iff.1 hrest with hown | ⟨own, u, -, hlast⟩
      · obtain ⟨v, hO, hv, herror⟩ := contribution_mismatch_iff.1 hown
        exact ⟨.own, v, .own hD hpart hO hv, herror⟩
      · -- Joining two parts never fails.
        cases hlast
  · rintro ⟨_, v, hrefuses, herror⟩
    cases hrefuses with
    | defaults hD hv =>
        exact run_bind_eq_error_iff.2 (.inl (contribution_mismatch_iff.2 ⟨v, hD, hv, herror⟩))
    | own hD hpart hO hv =>
        have hbase := contribution_run_eq_ok_iff.2 ⟨_, hD, hpart⟩
        have hown := contribution_mismatch_iff.2 ⟨v, hO, hv, herror⟩
        exact run_bind_eq_error_iff.2 (.inr ⟨_, _, hbase, run_bind_eq_error_iff.2 (.inl hown)⟩)

end Merge

/-! ## Lists of strings -/

/-- This is the first of the items that is no string. -/
def FirstNoString (items : List Value) (v : Value) : Prop :=
  items.find? (fun item => item.asString?.isNone) = some v

/-- This is the first item that is no string where own items stand before those of the defaults,
with the layer that it was taken from. -/
inductive FirstNoStringFrom (base own : List Value) : Layer → Value → Prop where
  | own {v : Value} (hv : FirstNoString own v) : FirstNoStringFrom base own .own v
  | defaults {v : Value} (hown : ∀ item, ¬ FirstNoString own item) (hv : FirstNoString base v) :
      FirstNoStringFrom base own .defaults v

private theorem firstNoString_append_iff {base own : List Value} {v : Value} :
    FirstNoString (own ++ base) v ↔ ∃ layer, FirstNoStringFrom base own layer v := by
  have hfirst : FirstNoString (own ++ base) v ↔
      FirstNoString own v ∨ (∀ item, ¬ FirstNoString own item) ∧ FirstNoString base v := by
    unfold FirstNoString
    rw [List.find?_append, Option.or_eq_some_iff, Option.eq_none_iff_forall_ne_some]
  rw [hfirst]
  constructor
  · rintro (hv | ⟨hown, hv⟩)
    · exact ⟨.own, .own hv⟩
    · exact ⟨.defaults, .defaults hown hv⟩
  · rintro ⟨layer, h⟩
    cases h with
    | own hv => exact .inl hv
    | defaults hown hv => exact .inr ⟨hown, hv⟩

namespace Layers

private theorem stringsOf_eq_error_iff {items : List Value} {e : SemanticError} :
    stringsOf key source items = .error e ↔
      ∃ v, FirstNoString items v ∧ e = mismatch key "string" v source := by
  induction items with
  | nil => simp [stringsOf, FirstNoString]
  | cons v rest ih =>
      cases v with
      | string text =>
          have hskip : ∀ u, FirstNoString (.string text :: rest) u ↔ FirstNoString rest u :=
            fun _ => Iff.rfl
          simp only [hskip, ← ih, stringsOf]
          cases stringsOf key source rest <;> simp [Except.map]
      | _ => simp [stringsOf, FirstNoString, Value.asString?, eq_comm]

/-- The layers are merged into a list, and this is its first item that is no string, taken from this
layer. -/
def Spoils (around : Surroundings) (layers : Layers) (key : Keyword) (s : Subject) (layer : Layer)
    (v : Value) (t : Subject) : Prop :=
  ∃ m D O base own, layers.Holds around key .defaults s (.ok D) m ∧
    layers.Holds around key .own m (.ok O) t ∧ Merge.list.Part D base ∧ Merge.list.Part O own ∧
    FirstNoStringFrom base own layer v

/-- Merging strings fails just if merging the list does or an item is no string. -/
theorem mergeStrings_mismatch_iff :
    (layers.mergeStrings around key).run s =
        (.error (.typeMismatch p expected found source), t) ↔
      (∃ layer v, Merge.list.Refuses around layers key s layer v t ∧
        .typeMismatch p expected found source = mismatch key "list" v (layers.source layer)) ∨
      ∃ layer v, layers.Spoils around key s layer v t ∧
        .typeMismatch p expected found source = mismatch key "string" v layers.element := by
  constructor
  · intro hrun
    rcases run_bind_eq_error_iff.1 hrun with hlist | ⟨items, u, hitems, -⟩
    · exact .inl (Merge.list.run_mismatch_iff.1 hlist)
    · -- The items are judged in the merged list, where nothing says which layer they are from.
      rw [mergeStrings_run hitems] at hrun
      obtain ⟨hresult, rfl⟩ := Prod.mk.inj hrun
      obtain ⟨v, hv, herror⟩ := stringsOf_eq_error_iff.1 hresult
      obtain ⟨m, D, O, base, own, hD, hO, hbase, hown, rfl⟩ := Merge.list.run_eq_ok_iff.1 hitems
      obtain ⟨layer, hfrom⟩ := firstNoString_append_iff.1 hv
      exact .inr ⟨layer, v, ⟨m, D, O, base, own, hD, hO, hbase, hown, hfrom⟩, herror⟩
  · rintro (hlist | ⟨layer, v, ⟨m, D, O, base, own, hD, hO, hbase, hown, hfrom⟩, herror⟩)
    · exact run_bind_eq_error_iff.2 (.inl (Merge.list.run_mismatch_iff.2 hlist))
    · have hitems : (layers.mergeList around key).run s = (.ok (own ++ base), t) :=
        Merge.list.run_eq_ok_iff.2 ⟨m, D, O, base, own, hD, hO, hbase, hown, rfl⟩
      have hv := firstNoString_append_iff.2 ⟨layer, hfrom⟩
      rw [mergeStrings_run hitems]
      exact Prod.ext (stringsOf_eq_error_iff.2 ⟨v, hv, herror⟩) rfl

/-! ## The source -/

/-- An error about a value of the wrong type is about the value that a layer holds, and its source
is that layer: for a property that holds one thing the layer in which it is found, and for maps and
lists either layer. In a list of strings it is about the first item that is no string; then its
source is the element, whichever layer the item was taken from. -/
theorem mismatch_source (around : Surroundings) (layers : Layers) (key : Keyword) (s t : Subject)
    (p : Keyword) (expected found source : String) :
    (∀ (α : Type) (x : Scalar α),
      (x.ask around layers key).run s = (.error (.typeMismatch p expected found source), t) ↔
        ∃ layer v, layers.Finds around key s (.ok (some (layer, v))) t ∧ x.fits? v = none ∧
          p = key ∧ expected = x.expected ∧ found = v.typeName ∧ source = layers.source layer) ∧
    (∀ (α : Type) (x : Merge α),
      (x.run around layers key).run s = (.error (.typeMismatch p expected found source), t) ↔
        ∃ layer v, x.Refuses around layers key s layer v t ∧
          p = key ∧ expected = x.expected ∧ found = v.typeName ∧ source = layers.source layer) ∧
    ((layers.mergeStrings around key).run s =
        (.error (.typeMismatch p expected found source), t) ↔
      (∃ layer v, Merge.list.Refuses around layers key s layer v t ∧
        p = key ∧ expected = "list" ∧ found = v.typeName ∧ source = layers.source layer) ∨
      ∃ layer v, layers.Spoils around key s layer v t ∧
        p = key ∧ expected = "string" ∧ found = v.typeName ∧ source = layers.element) := by
  simp only [← SemanticError.typeMismatch.injEq]
  exact ⟨fun _ _ => Scalar.ask_mismatch_iff, fun _ _ => Merge.run_mismatch_iff,
    mergeStrings_mismatch_iff⟩

/-- An integer for the layer, taken from the defaults, and one among the labels, which the element
has of its own. -/
theorem mismatch_source_layers :
    let around : Surroundings := ⟨Graph.empty, 0⟩
    let s : Subject := ⟨none, none⟩
    let layers : Layers :=
      ⟨[⟨nowhere .labels, nowhere (.list [nowhere (.string "a"), nowhere (.int 3)])⟩],
        [⟨nowhere .layer, nowhere (.int 3)⟩], "web"⟩
    (layers.string? around .layer).run s =
        (.error (.typeMismatch .layer "string" "int" "default"), s) ∧
      (layers.mergeStrings around .labels).run s =
        (.error (.typeMismatch .labels "string" "int" "web"), s) := by
  intro around s layers
  have hnone : layers.Holds around .layer .own s (.ok none) s := .missing (by decide)
  have hlayer : layers.Finds around .layer s (.ok (some (.defaults, .int 3))) s :=
    .fallback hnone (.value ⟨[], [], rfl, rfl, by simp⟩ rfl rfl)
  have hlabels : layers.Holds around .labels .own s
      (.ok (some (.list [.string "a", .int 3]))) s :=
    .value ⟨[], [], rfl, rfl, by simp⟩ rfl rfl
  have hmissing : layers.Holds around .labels .defaults s (.ok none) s := .missing (by decide)
  have hspoils : layers.Spoils around .labels s .own (.int 3) s :=
    ⟨_, _, _, _, _, hmissing, hlabels, .inl ⟨rfl, rfl⟩, .inr rfl, .own rfl⟩
  exact ⟨((mismatch_source around layers .layer s s _ _ _ _).1 _ .string).2
      ⟨.defaults, .int 3, hlayer, rfl, rfl, rfl, rfl, rfl⟩,
    (mismatch_source around layers .labels s s _ _ _ _).2.2.2
      (.inr ⟨.own, .int 3, hspoils, rfl, rfl, rfl, rfl⟩)⟩

/-- An integer among the labels of the defaults is put down to an element without labels. -/
theorem mismatch_source_item :
    let around : Surroundings := ⟨Graph.empty, 0⟩
    let s : Subject := ⟨none, none⟩
    let layers : Layers :=
      ⟨[⟨nowhere .name, nowhere (.string "web")⟩],
        [⟨nowhere .labels, nowhere (.list [nowhere (.int 3)])⟩], "web"⟩
    layers.Spoils around .labels s .defaults (.int 3) s ∧
      (layers.mergeStrings around .labels).run s =
        (.error (.typeMismatch .labels "string" "int" "web"), s) ∧
      layers.source .defaults ≠ "web" := by
  intro around s layers
  have hlabels : layers.Holds around .labels .defaults s (.ok (some (.list [.int 3]))) s :=
    .value ⟨[], [], rfl, rfl, by simp⟩ rfl rfl
  have hown : layers.Holds around .labels .own s (.ok none) s := .missing (by decide)
  have hspoils : layers.Spoils around .labels s .defaults (.int 3) s :=
    ⟨_, _, _, _, _, hlabels, hown, .inr rfl, .inl ⟨rfl, rfl⟩,
      .defaults (fun item h => by cases h) rfl⟩
  exact ⟨hspoils, rfl, by decide⟩

end Layers

end InfraGraph.Interpretation
