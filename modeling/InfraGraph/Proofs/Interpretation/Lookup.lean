import InfraGraph.Proofs.Effect
import InfraGraph.Proofs.Interpretation.Agreement

/-!
# What a look-up evaluates

Every value in the layers may be code that fails or decorates the subject, so it matters which
values a look-up evaluates at all. In one layer that is the last one under the keyword and no other:
`Layers.Holds` says what comes of it. A property that holds one thing is then found by
`Layers.Finds`: in the element's own properties, and in the defaults only if it is missing or null
there. What is asked of it, a string or an integer, is judged afterwards and evaluates nothing.

So whatever else stands in the layers, and the defaults beside an own value, can be removed without
a trace, were it code that fails.

## Main results

* `own?_run_iff`, `default?_run_iff` — a layer is looked at by evaluating the last value only.
* `value?_run_iff` — a property that holds one thing is looked up in that way, layer by layer.
* `Scalar.ask_run` — asking for a type only judges what was found.
* `Layers.evaluates_last` — so what is never evaluated makes no difference.
-/

namespace InfraGraph.Interpretation

open Block (Surroundings Subject)
open Definition (Literal Property Spanned nowhere)
open Effect

/-! ## The last property -/

/-- The property is the last one under the keyword. -/
def LastUnder (properties : List Property) (key : Keyword) (p : Property) : Prop :=
  ∃ before after, properties = before ++ p :: after ∧ p.key.node = key ∧
    ∀ q ∈ after, q.key.node ≠ key

/-- The last property under a keyword is the first one found from the end. -/
theorem lastUnder_iff {properties : List Property} {key : Keyword} {p : Property} :
    LastUnder properties key p ↔
      properties.reverse.find? (fun q => q.key.node == key) = some p := by
  rw [List.find?_eq_some_iff_append, LastUnder]
  constructor
  · rintro ⟨before, after, rfl, hkey, hafter⟩
    exact ⟨by simpa using hkey, after.reverse, before.reverse, by simp, by simpa using hafter⟩
  · rintro ⟨hkey, after, before, hreverse, hafter⟩
    refine ⟨before.reverse, after.reverse, ?_, by simpa using hkey, by simpa using hafter⟩
    rw [← List.reverse_reverse properties, hreverse]
    simp

/-- Only one property is the last one under a keyword. -/
theorem LastUnder.unique {properties : List Property} {key : Keyword} {p q : Property}
    (hp : LastUnder properties key p) (hq : LastUnder properties key q) : p = q := by
  rw [lastUnder_iff] at hp hq
  exact Option.some.inj (hp.symm.trans hq)

/-- There is no literal just under the keywords of no property. -/
theorem literal?_eq_none_iff {properties : List Property} {key : Keyword} :
    literal? properties key = none ↔ ∀ p ∈ properties, p.key.node ≠ key := by
  simp [literal?]

/-- The literal under a keyword is that of the last property. -/
theorem literal?_eq_some_iff {properties : List Property} {key : Keyword} {l : Literal} :
    literal? properties key = some l ↔
      ∃ p, LastUnder properties key p ∧ p.literal.node = l := by
  simp only [literal?, Option.map_eq_some_iff, lastUnder_iff]

theorem LastUnder.literal? {properties : List Property} {key : Keyword} {p : Property}
    (h : LastUnder properties key p) : literal? properties key = some p.literal.node :=
  literal?_eq_some_iff.2 ⟨p, h, rfl⟩

/-! ## One layer -/

/-- One of the two layers in which properties are looked up. -/
inductive Layer where
  | own | defaults
  deriving DecidableEq, Repr

namespace Layers

variable (around : Surroundings) (layers : Layers) (key : Keyword)

/-- The properties of a layer. -/
def properties : Layer → List Property
  | .own => layers.own
  | .defaults => layers.defaults

/-- What a layer is called in messages. -/
def source : Layer → String
  | .own => layers.element
  | .defaults => defaultSource

/-- What a layer holds under the keyword, when it is looked at with a subject: nothing, a value or
an error, and the subject after it. The last property is evaluated, and null is nothing. -/
inductive Holds (layer : Layer) (s : Subject) :
    Except SemanticError (Option Value) → Subject → Prop where
  | missing (hmissing : ∀ p ∈ layers.properties layer, p.key.node ≠ key) :
      Holds layer s (.ok none) s
  | null {p : Property} {t : Subject} (hlast : LastUnder (layers.properties layer) key p)
      (hrun : (evaluate around key (layers.source layer) p.literal.node).run s =
        (.ok .null, t)) : Holds layer s (.ok none) t
  | value {p : Property} {v : Value} {t : Subject}
      (hlast : LastUnder (layers.properties layer) key p)
      (hrun : (evaluate around key (layers.source layer) p.literal.node).run s = (.ok v, t))
      (hv : v.isNull = false) : Holds layer s (.ok (some v)) t
  | failed {p : Property} {e : SemanticError} {t : Subject}
      (hlast : LastUnder (layers.properties layer) key p)
      (hrun : (evaluate around key (layers.source layer) p.literal.node).run s =
        (.error e, t)) : Holds layer s (.error e) t

/-- What the element holds itself, or else the defaults hold. -/
inductive Finds (s : Subject) :
    Except SemanticError (Option (Layer × Value)) → Subject → Prop where
  | own {v : Value} {t : Subject} (h : layers.Holds around key .own s (.ok (some v)) t) :
      Finds s (.ok (some (.own, v))) t
  | failed {e : SemanticError} {t : Subject}
      (h : layers.Holds around key .own s (.error e) t) : Finds s (.error e) t
  | fallback {m t : Subject} {r : Except SemanticError (Option Value)}
      (hown : layers.Holds around key .own s (.ok none) m)
      (h : layers.Holds around key .defaults m r t) :
      Finds s (r.map (Option.map (Layer.defaults, ·))) t

/-- A layer always holds something, nothing or an error. -/
theorem exists_holds (layer : Layer) (s : Subject) :
    ∃ r t, layers.Holds around key layer s r t := by
  cases hl : literal? (layers.properties layer) key with
  | none => exact ⟨_, _, .missing (literal?_eq_none_iff.1 hl)⟩
  | some l =>
      obtain ⟨p, hlast, rfl⟩ := literal?_eq_some_iff.1 hl
      rcases hrun : (evaluate around key (layers.source layer) p.literal.node).run s with
        ⟨e | v, t⟩
      · exact ⟨_, _, .failed hlast hrun⟩
      · cases hv : v.isNull with
        | false => exact ⟨_, _, .value hlast hrun hv⟩
        | true =>
            cases v with
            | null => exact ⟨_, _, .null hlast hrun⟩
            | _ => cases hv

/-- A look-up always finds something, nothing or an error. -/
theorem exists_finds (s : Subject) : ∃ found t, layers.Finds around key s found t := by
  obtain ⟨r, m, hown⟩ := exists_holds around layers key .own s
  rcases r with e | _ | v
  · exact ⟨_, _, .failed hown⟩
  · obtain ⟨r, t, hdefault⟩ := exists_holds around layers key .defaults m
    exact ⟨_, _, .fallback hown hdefault⟩
  · exact ⟨_, _, .own hown⟩

section OneLayer

variable {around layers key} {layer : Layer} {s t : Subject}
  {r : Except SemanticError (Option Value)}

/-- Looking at a layer gives what it holds. -/
theorem Holds.run (h : layers.Holds around key layer s r t) :
    (layerValue? around (layers.properties layer) (layers.source layer) key).run s = (r, t) := by
  unfold layerValue?
  cases h with
  | missing hmissing =>
      rw [literal?_eq_none_iff.2 hmissing]
      rfl
  | null hlast hrun =>
      rw [hlast.literal?]
      dsimp only
      rw [run_bind, hrun]
      rfl
  | value hlast hrun hv =>
      rw [hlast.literal?]
      dsimp only
      rw [run_bind, hrun]
      simp only [hv, Bool.false_eq_true, if_false]
      rfl
  | failed hlast hrun =>
      rw [hlast.literal?]
      dsimp only
      rw [run_bind, hrun]

/-- A layer holds one thing only. -/
theorem Holds.unique {q : Except SemanticError (Option Value)} {u : Subject}
    (h : layers.Holds around key layer s r t) (k : layers.Holds around key layer s q u) :
    r = q ∧ t = u :=
  Prod.mk.inj (h.run.symm.trans k.run)

/-- Looking at a layer gives what it holds and nothing else. -/
theorem layerValue?_run_iff (layer : Layer) :
    (layerValue? around (layers.properties layer) (layers.source layer) key).run s = (r, t) ↔
      layers.Holds around key layer s r t := by
  refine ⟨fun hrun => ?_, Holds.run⟩
  obtain ⟨r', t', h⟩ := exists_holds around layers key layer s
  cases h.run.symm.trans hrun
  exact h

/-- The own value is what the own properties hold. -/
theorem own?_run_iff :
    (layers.own? around key).run s = (r, t) ↔ layers.Holds around key .own s r t :=
  layerValue?_run_iff .own

/-- The default value is what the defaults hold. -/
theorem default?_run_iff :
    (layers.default? around key).run s = (r, t) ↔ layers.Holds around key .defaults s r t :=
  layerValue?_run_iff .defaults

end OneLayer

/-! ## Both layers in turn -/

section BothLayers

variable {around layers key} {s t : Subject} {found : Except SemanticError (Option (Layer × Value))}

/-- A look-up gives what it finds and where. -/
theorem Finds.lookup? (h : layers.Finds around key s found t) :
    (layers.lookup? around key).run s =
      (found.map (Option.map fun f => (f.2, layers.source f.1)), t) := by
  unfold Layers.lookup?
  rw [run_bind]
  cases h with
  | own h =>
      rw [own?_run_iff.2 h]
      rfl
  | failed h =>
      rw [own?_run_iff.2 h]
      rfl
  | @fallback m t r hown h =>
      rw [own?_run_iff.2 hown]
      dsimp only
      rw [run_bind, default?_run_iff.2 h]
      rcases r with e | _ | v <;> rfl

/-- A look-up for the value gives what it finds. -/
theorem Finds.value? (h : layers.Finds around key s found t) :
    (layers.value? around key).run s = (found.map (Option.map Prod.snd), t) := by
  unfold Layers.value?
  rw [run_bind, h.lookup?]
  rcases found with e | _ | f <;> rfl

/-- A look-up for the value gives what it finds and nothing else. -/
theorem value?_run_iff {r : Except SemanticError (Option Value)} :
    (layers.value? around key).run s = (r, t) ↔
      ∃ found, layers.Finds around key s found t ∧ r = found.map (Option.map Prod.snd) := by
  constructor
  · intro hrun
    obtain ⟨found, u, h⟩ := exists_finds around layers key s
    cases h.value?.symm.trans hrun
    exact ⟨found, h, rfl⟩
  · rintro ⟨found, h, rfl⟩
    exact h.value?

end BothLayers

end Layers

/-! ## What is asked of a property -/

/-- What a property that holds one thing may be asked for, by what is given for it. -/
inductive Scalar : Type → Type where
  | string : Scalar (Option String)
  | stringOr (fallback : String) : Scalar String
  | requireString : Scalar String
  | intOr (fallback : Int64) : Scalar Int64

namespace Scalar

variable {α : Type}

/-- Asks a property for it. -/
def ask (around : Surroundings) (layers : Layers) (key : Keyword) : Scalar α → Work Subject α
  | string => layers.string? around key
  | stringOr fallback => layers.stringOr around key fallback
  | requireString => layers.requireString around key
  | intOr fallback => layers.intOr around key fallback

/-- The type that is expected. -/
def expected : Scalar α → String
  | string | stringOr _ | requireString => "string"
  | intOr _ => "int"

/-- What is given for a value, if it has this type. -/
def fits? : Scalar α → Value → Option α
  | string, v => v.asString?.map some
  | stringOr _, v => v.asString?
  | requireString, v => v.asString?
  | intOr _, v => v.asInt?

/-- What is given where nothing is found. -/
def absent (layers : Layers) (key : Keyword) : Scalar α → Except SemanticError α
  | string => .ok none
  | stringOr fallback => .ok fallback
  | requireString => .error (.missingProperty key layers.element)
  | intOr fallback => .ok fallback

/-- What is given for what was found. A value of another type is refused. -/
def judge (layers : Layers) (key : Keyword) (x : Scalar α) :
    Option (Layer × Value) → Except SemanticError α
  | none => x.absent layers key
  | some (layer, v) =>
    match x.fits? v with
    | some a => .ok a
    | none => .error (Layers.mismatch key x.expected v (layers.source layer))

variable {around : Surroundings} {layers : Layers} {key : Keyword} {s t : Subject}
  {found : Except SemanticError (Option (Layer × Value))}

private theorem string?_run (h : layers.Finds around key s found t) :
    (layers.string? around key).run s = (found.bind (string.judge layers key), t) := by
  unfold Layers.string?
  rw [run_bind, h.lookup?]
  rcases found with e | _ | ⟨layer, v⟩
  · rfl
  · rfl
  · cases v <;> rfl

/-- Whatever a property is asked for, it is looked up in the same way and then judged. -/
theorem ask_run (x : Scalar α) (h : layers.Finds around key s found t) :
    (x.ask around layers key).run s = (found.bind (x.judge layers key), t) := by
  cases x with
  | string => exact string?_run h
  | stringOr fallback =>
      simp only [ask, Layers.stringOr]
      rw [run_bind, string?_run h]
      rcases found with e | _ | ⟨layer, v⟩
      · rfl
      · rfl
      · cases v <;> rfl
  | requireString =>
      simp only [ask, Layers.requireString]
      rw [run_bind, string?_run h]
      rcases found with e | _ | ⟨layer, v⟩
      · rfl
      · rfl
      · cases v <;> rfl
  | intOr fallback =>
      simp only [ask, Layers.intOr]
      rw [run_bind, h.lookup?]
      rcases found with e | _ | ⟨layer, v⟩
      · rfl
      · rfl
      · cases v <;> rfl

end Scalar

/-! ## What is never evaluated -/

/-- Some of the properties are left out, but not the last one under the keyword. -/
structure Thinned (key : Keyword) (properties fewer : List Property) : Prop where
  sublist : fewer.Sublist properties
  last : ∀ p, LastUnder properties key p → LastUnder fewer key p

/-- Anything may be left out on either side of the last property under the keyword. -/
theorem Thinned.of_split {key : Keyword} {before after fewerBefore fewerAfter : List Property}
    {p : Property} (hkey : p.key.node = key) (hafter : ∀ q ∈ after, q.key.node ≠ key)
    (hbefore : fewerBefore.Sublist before) (hsublist : fewerAfter.Sublist after) :
    Thinned key (before ++ p :: after) (fewerBefore ++ p :: fewerAfter) where
  sublist := hbefore.append (hsublist.cons_cons p)
  last q hq := by
    obtain rfl : q = p := hq.unique ⟨before, after, rfl, hkey, hafter⟩
    exact ⟨fewerBefore, fewerAfter, rfl, hkey, fun r hr => hafter r (hsublist.mem hr)⟩

private theorem Thinned.literal? {key : Keyword} {properties fewer : List Property}
    (h : Thinned key properties fewer) : literal? fewer key = literal? properties key := by
  cases hl : Interpretation.literal? properties key with
  | none =>
      have hmissing := literal?_eq_none_iff.1 hl
      exact literal?_eq_none_iff.2 fun p hp => hmissing p (h.sublist.mem hp)
  | some l =>
      obtain ⟨p, hlast, rfl⟩ := literal?_eq_some_iff.1 hl
      exact (h.last p hlast).literal?

namespace Layers

/-- In both layers, some of the properties are left out, but not the last one under the keyword. -/
structure Thinned (key : Keyword) (layers fewer : Layers) : Prop where
  element : fewer.element = layers.element
  own : Interpretation.Thinned key layers.own fewer.own
  defaults : Interpretation.Thinned key layers.defaults fewer.defaults

variable {around : Surroundings} {layers : Layers} {key : Keyword}

private theorem Thinned.agree {fewer : Layers} (h : Thinned key layers fewer) :
    fewer.Agree around around layers key where
  element := h.element
  own source := by
    unfold layerValue?
    rw [h.own.literal?]
  defaults source := by
    unfold layerValue?
    rw [h.defaults.literal?]

private theorem Agree.ask {elsewhere : Surroundings} {others : Layers} {α : Type} (x : Scalar α)
    (h : layers.Agree around elsewhere others key) :
    x.ask around layers key = x.ask elsewhere others key := by
  cases x with
  | string => exact h.string?
  | stringOr fallback => exact h.stringOr fallback
  | requireString => exact h.requireString
  | intOr fallback => exact h.intOr fallback

section OtherDefaults

variable {s t : Subject}

/-- The defaults are not looked at for the element's own value. -/
theorem Holds.withDefaults {r : Except SemanticError (Option Value)}
    (h : layers.Holds around key .own s r t) (defaults : List Property) :
    ({ layers with defaults } : Layers).Holds around key .own s r t :=
  own?_run_iff.1 (own?_run_iff.2 h : (layers.own? around key).run s = (r, t))

/-- Where the element's own value is there or fails, any other defaults do as well. -/
theorem Holds.exists_finds {r : Except SemanticError (Option Value)}
    (h : layers.Holds around key .own s r t) (hr : r ≠ .ok none) :
    ∃ found, ∀ defaults,
      ({ layers with defaults } : Layers).Finds around key s found t := by
  rcases r with e | _ | v
  · exact ⟨_, fun defaults => .failed (h.withDefaults defaults)⟩
  · exact absurd rfl hr
  · exact ⟨_, fun defaults => .own (h.withDefaults defaults)⟩

end OtherDefaults

/-- A property that holds one thing is looked up by evaluating the last of the element's own
properties under the keyword and, if there is none or it is null, the last of the defaults, and what
is asked of it is judged without evaluating anything. Properties under other keywords, earlier ones
under this one, and the defaults beside an own value that is there or fails, may be left out: the
result, the error and the subject are the same. -/
theorem evaluates_last (around : Surroundings) (layers : Layers) (key : Keyword) (s : Subject) :
    (∀ r t, (layers.value? around key).run s = (r, t) ↔
      ∃ found, layers.Finds around key s found t ∧ r = found.map (Option.map Prod.snd)) ∧
    (∀ (α : Type) (x : Scalar α) (found) (t), layers.Finds around key s found t →
      (x.ask around layers key).run s = (found.bind (x.judge layers key), t)) ∧
    (∀ fewer, Thinned key layers fewer →
      (fewer.value? around key).run s = (layers.value? around key).run s ∧
      ∀ (α : Type) (x : Scalar α),
        (x.ask around fewer key).run s = (x.ask around layers key).run s) ∧
    (∀ r t, layers.Holds around key .own s r t → r ≠ .ok none → ∀ defaults,
      (({ layers with defaults } : Layers).value? around key).run s =
        (layers.value? around key).run s ∧
      ∀ (α : Type) (x : Scalar α),
        (x.ask around { layers with defaults } key).run s = (x.ask around layers key).run s) := by
  refine ⟨fun r t => value?_run_iff, fun α x found t h => x.ask_run h, ?_, ?_⟩
  · intro fewer hfewer
    have hagree : fewer.Agree around around layers key := hfewer.agree
    exact ⟨by rw [hagree.value?], fun α x => by rw [hagree.ask x]⟩
  · intro r t hown hr defaults
    obtain ⟨found, hfound⟩ := hown.exists_finds hr
    have hother := hfound defaults
    have hsame := hfound layers.defaults
    refine ⟨hother.value?.trans hsame.value?.symm, fun α x => ?_⟩
    rw [x.ask_run hother]
    exact (x.ask_run hsame).symm

/-- A name that is given twice, with code that fails in the first place, and again in the
defaults. -/
theorem evaluates_last_twice :
    let around : Surroundings := ⟨Graph.empty, 0⟩
    let s : Subject := ⟨none, none⟩
    let entry (key : Keyword) (l : Literal) : Property := ⟨nowhere key, nowhere l⟩
    let name := entry .name (.string "web")
    let failing := entry .name (.code "1 / 0")
    let other := entry .layer (.code "component.add_label(name)")
    let layers : Layers := ⟨[failing, name, other], [failing], "Host"⟩
    let fewer : Layers := ⟨[name], [failing], "Host"⟩
    Thinned .name layers fewer ∧
      layers.Holds around .name .own s (.ok (some (.string "web"))) s ∧
      (fewer.value? around .name).run s = (.ok (some (.string "web")), s) ∧
      (({ layers with defaults := [] } : Layers).value? around .name).run s =
        (.ok (some (.string "web")), s) := by
  intro around s entry name failing other layers fewer
  have hother : ∀ q ∈ [other], q.key.node ≠ .name := by simp [other, entry, nowhere]
  have hown : Interpretation.Thinned .name ([failing] ++ name :: [other]) ([] ++ name :: []) :=
    .of_split rfl hother (List.nil_sublist _) (List.nil_sublist _)
  have hthinned : Thinned .name layers fewer := ⟨rfl, hown, .refl _, fun _ h => h⟩
  have hholds : layers.Holds around .name .own s (.ok (some (.string "web"))) s :=
    .value ⟨[failing], [other], rfl, rfl, hother⟩ rfl rfl
  obtain ⟨hvalue, _, hfewer, hdefaults⟩ := evaluates_last around layers .name s
  have hweb : (layers.value? around .name).run s = (.ok (some (.string "web")), s) :=
    (hvalue _ _).2 ⟨_, .own hholds, rfl⟩
  exact ⟨hthinned, hholds, (hfewer fewer hthinned).1.trans hweb,
    (hdefaults _ _ hholds (by simp) []).1.trans hweb⟩

end Layers

end InfraGraph.Interpretation
