import InfraGraph.Proofs.Block.DecimalText
import InfraGraph.Proofs.Definition.LiteralText
import InfraGraph.Proofs.Definition.RoundTrip
import InfraGraph.Proofs.Interpretation.Layers
import InfraGraph.Proofs.Interpretation.Lookup

/-!
# Integers in and out of code blocks

The value of a property may be an integer as it is or a code block with its decimal text.
Definitions take the sign as a part of the number, and code blocks as an operator before it, but
both ways give the same value: a property is the integer that it is written with, in whatever text
it stands and whatever else is there. Only the smallest integer cannot be written in a code block,
because the number behind the minus is too large.

## Main results

* `Writes.literal_eq` — the literal of a property is known from what is written for it.
* `exists_read_textWith` — a component with one such property is read.
* `integer_resolves` — the property is the integer.
* `integer_resolves_smallest` — the two ways differ for the smallest integer.
-/

namespace InfraGraph.Definition

open Reading (fence)
open Text (slice trim width)

/-- What a token is written as is this token alone. -/
theorem Token.lexemes_spelling {t : Token} (ht : t.Spelled) :
    lexemes t.spelling = .ok [⟨t, 0, width t.spelling⟩] := by
  have hflawless : Reading.Flawless [Reading.tokenPiece spelling t] :=
    List.forall_mem_singleton.2 fun _ _ => by simp [Reading.tokenPiece]
  have hlexemes := Reading.lexemes_of_cutsOff cut_faithful
    ((chunk ht).cutsOff Reading.ends_nil) hflawless
  have htext : Reading.textOf [Reading.tokenPiece spelling t] = t.spelling := List.append_nil _
  rw [htext] at hlexemes
  rw [lexemes, hlexemes]
  simp [Reading.lexemesFrom, Reading.tokenPiece]

/-! ## Ways to write an integer -/

/-- An integer is written as it is, or as a code block with blanks around it at most, and this means
a literal. -/
inductive Writes (n : Int64) : List Char → Literal → Prop
  | plain : Writes n (Decimal.wordText n) (.int n)
  | code {body : List Char} (hbody : trim body = Decimal.wordText n) :
      Writes n (fence ++ body ++ fence) (.code (String.ofList body))

namespace Writes

variable {n : Int64} {written : List Char} {l : Literal}

theorem isBody {body : List Char} (hbody : trim body = Decimal.wordText n) :
    IsBody (String.ofList body) := by
  have hbacktick := Block.backtick_notMem_of_trim hbody
  rw [IsBody, String.toList_ofList]
  exact ⟨fun hfence => hbacktick (hfence.subset List.mem_cons_self),
    fun hlast => hbacktick (List.mem_of_getLast? hlast)⟩

private theorem writable (h : Writes n written l) : l.Writable := by
  cases h with
  | plain => exact .int n
  | code hbody => exact .code (isBody hbody)

/-- An integer is written as one token. -/
theorem exists_token (h : Writes n written l) : ∃ t : Token, t.Spelled ∧ t.spelling = written ∧
    l.tokens = [t] ∧ t.literal? = some l := by
  cases h with
  | plain => exact ⟨.int n, trivial, rfl, rfl, rfl⟩
  | @code body hbody =>
      refine ⟨.code (String.ofList body), isBody hbody, ?_, rfl, rfl⟩
      rw [Token.spelling, String.toList_ofList]

private theorem eq_of_unplaced (h : Writes n written l) {a : Literal}
    (ha : a.unplaced = l.unplaced) :
    a = l := by
  cases h with
  | plain =>
      cases a with
      | int m => exact ha
      | _ => cases ha
  | code hbody =>
      cases a with
      | code body => exact ha
      | _ => cases ha

/-- The literal of a property is known from what is written for it. -/
theorem literal_eq (h : Writes n written l) {text : List Char} {d : Definitions}
    (hd : Definitions.read text = .ok d) {p : Spanned Property} (hp : p ∈ d.allProperties)
    (hwritten : slice p.node.literal.span text = written) : p.node.literal.node = l := by
  obtain ⟨t, ht, hspelling, -, hmeans⟩ := h.exists_token
  have halone : t.Alone text p.node.literal.span := by
    rw [Token.Alone, hwritten, ← hspelling]
    exact Token.lexemes_spelling ht
  rcases Definitions.toldBy_of_read hd p hp t halone with ⟨m, rfl⟩ | htold
  · cases hmeans
  · exact Option.some.inj (htold.symm.trans hmeans)

end Writes

/-! ## A text with one property -/

/-- A component with one property. -/
def withProperty (key : Keyword) (l : Literal) : Definitions :=
  ⟨none, [ComponentDefinition.ofEntries "Host" [(key, l)]], []⟩

/-- The text of a component with one property. -/
def textWith (key : Keyword) (written : List Char) : List Char :=
  "components \x7b Host ( ".toList ++ (key.text.toList ++ ' ' :: (written ++ " ) \x7d".toList))

variable {key : Keyword} {l : Literal}

private theorem write_withProperty {t : Token} (hl : l.tokens = [t]) :
    (withProperty key l).write = textWith key t.spelling := by
  have hproperty : Property.tokens ⟨nowhere key, nowhere l⟩ = [.word key.text, t] := by
    rw [Property.tokens, node_nowhere, node_nowhere, hl]
  have hparts : (withProperty key l).parts =
      [.token (.word "components"), .token (.mark .braceOpen), .componentType "Host",
        .token (.mark .parenOpen), .token (.word key.text), .token t,
        .token (.mark .parenClose), .token (.mark .braceClose)] := by
    simp [withProperty, Definitions.parts, Definitions.leadingTokens, Definitions.trailingTokens,
      ComponentDefinition.ofEntries, ComponentDefinition.parts, blockTokens, hproperty]
  have hstart : ["components".toList, ['\x7b'], "Host".toList, ['(']].flatMap (· ++ [' ']) =
      "components \x7b Host ( ".toList := by
    decide +kernel
  have hend : ' ' :: ([')'] ++ ' ' :: ['\x7d']) = " ) \x7d".toList := by decide +kernel
  have hwords : (withProperty key l).write =
      ["components".toList, ['\x7b'], "Host".toList, ['(']].flatMap (· ++ [' ']) ++
        (key.text.toList ++ ' ' :: (t.spelling ++ ' ' :: ([')'] ++ ' ' :: ['\x7d']))) := by
    rw [Definitions.write, hparts]
    simp [Part.spelling, Token.spelling, List.intercalate, Mark.char]
  rw [hwords]
  exact congrArg₂ (fun start stop => start ++ (key.text.toList ++ ' ' :: (t.spelling ++ stop)))
    hstart hend

private theorem writable_withProperty (hkey : Context.component.allows key = true)
    (hl : l.Writable) :
    (withProperty key l).Writable where
  defaults := fun ps hps => by cases hps
  componentTypes := List.forall_mem_singleton.2
    ⟨"Host", [], (List.append_nil _).symm, by decide, by simp⟩
  components := List.forall_mem_singleton.2 (List.forall_mem_singleton.2 ⟨hkey, hl⟩)
  events := List.forall_mem_nil _

/-- A component with a property that is an integer is read, with this property. -/
theorem exists_read_textWith {n : Int64} {written : List Char} (h : Writes n written l)
    (hkey : Context.component.allows key = true) :
    ∃ d c p, Definitions.read (textWith key written) = .ok d ∧ d.components = [c] ∧
      c.node.properties = [p] ∧ p.node.key.node = key ∧ p.node.literal.node = l := by
  obtain ⟨t, -, rfl, htokens, -⟩ := h.exists_token
  have hd := writable_withProperty hkey h.writable
  obtain ⟨tree, htree⟩ := hd.exists_tree
  have hderived : tree.tokens = (Reading.lexemesFrom 0 (Reading.spaced
      ((withProperty key l).parts.map Part.pieces))).map Reading.Lexeme.token := by
    rw [Reading.map_token_lexemesFrom, Reading.filterMap_token?_spaced, List.flatMap_map,
      htree.tokens]
    rfl
  obtain ⟨d, hread, huntyped, -⟩ :=
    Definitions.read_of_tree (Definitions.lexemes_write hd) hderived
  rw [write_withProperty htokens] at hread
  have hcomponents := congrArg Definitions.components (huntyped.trans htree.definitions)
  simp only [Definitions.untyped, Definitions.unplaced, List.map_map, withProperty,
    List.map_cons, List.map_nil] at hcomponents
  obtain ⟨c, hc, hcomponent⟩ := List.map_eq_singleton_iff.1 hcomponents
  have hproperties := congrArg (fun s => s.node.properties) hcomponent
  obtain ⟨p, hp, hproperty⟩ := List.map_eq_singleton_iff.1 hproperties
  have hkeys := congrArg (fun s => s.node.key.node) hproperty
  have hliterals := congrArg (fun s => s.node.literal.node) hproperty
  exact ⟨d, c, p, hread, hc, hp, hkeys, h.eq_of_unplaced hliterals⟩

end InfraGraph.Definition

namespace InfraGraph.Interpretation

open Block (Subject Surroundings)
open Definition (Definitions Literal Property Spanned Writes textWith exists_read_textWith)
open Effect
open Text (slice)

/-! ## The property that counts -/

/-- A property counts under its keyword: it is the last one of the element, or, where the element
has none, the last one of the defaults. -/
inductive Layers.Counts (layers : Layers) (key : Keyword) (p : Property) : Prop
  | own (hlast : LastUnder layers.own key p)
  | default (hmissing : ∀ q ∈ layers.own, q.key.node ≠ key)
      (hlast : LastUnder layers.defaults key p)

variable {around : Surroundings} {layers : Layers} {key : Keyword} {p : Property} {s : Subject}

/-- What the property that counts is evaluated to is the value, unless this is null. -/
theorem Layers.Counts.value? (h : layers.Counts key p) {v : Value} (hv : v.isNull = false)
    (hrun : ∀ source, (evaluate around key source p.literal.node).run s = (.ok v, s)) :
    (layers.value? around key).run s = (.ok (some v), s) := by
  cases h with
  | own hlast => exact (Finds.own (.value hlast (hrun _) hv)).value?
  | default hmissing hlast =>
      exact (Finds.fallback (.missing hmissing) (.value hlast (hrun _) hv)).value?

/-- A component with a property that is an integer is read, and this property counts. -/
theorem exists_lastUnder_textWith {n : Int64} {written : List Char} {l : Literal}
    (h : Writes n written l) (hkey : Context.component.allows key = true) :
    ∃ d c p, Definitions.read (textWith key written) = .ok d ∧ d.components = [c] ∧
      LastUnder (c.node.properties.map Spanned.node) key p ∧ p.literal.node = l := by
  obtain ⟨d, c, p, hread, hcomponents, hproperties, hpkey, hliteral⟩ :=
    exists_read_textWith h hkey
  refine ⟨d, c, p.node, hread, hcomponents, ⟨[], [], ?_, hpkey, by simp⟩, hliteral⟩
  rw [hproperties]
  rfl

/-! ## The value -/

/-- The value of a code block is what the block evaluates to. -/
theorem run_evaluate_code (source : String) (body : List Char) :
    (evaluate around key source (.code (String.ofList body))).run s =
      Block.evaluateText around key.text source (String.ofList body) s := by
  rw [evaluate, evaluateCode, run_of]

/-- What is written for an integer is evaluated to it, and nothing is changed. -/
theorem run_evaluate_writes {n : Int64} {written : List Char} {l : Literal}
    (h : Writes n written l) (hn : n = Int64.minValue → written = Decimal.wordText n)
    (source : String) : (evaluate around key source l).run s = (.ok (.int n), s) := by
  cases h with
  | plain => rfl
  | @code body hbody =>
      have hne : n ≠ Int64.minValue := by
        intro hmin
        have hbacktick : '\x60' ∈ Decimal.wordText n :=
          hn hmin ▸ List.mem_append_right _ List.mem_cons_self
        exact Block.notMem_wordText (by decide) (by decide) hbacktick
      rw [run_evaluate_code]
      exact Block.evaluateText_wordText around key.text source hne hbody s

/-- A property that is written as an integer, as it is or in a code block, is this integer wherever
it counts, and evaluating it changes nothing; only the smallest integer must not be in a code block.
And each keyword of components can have such a property. -/
theorem integer_resolves (n : Int64) (written : List Char) (l : Literal) (h : Writes n written l)
    (hn : n = Int64.minValue → written = Decimal.wordText n) :
    (∀ text d, Definitions.read text = .ok d → ∀ p ∈ d.allProperties,
      slice p.node.literal.span text = written →
        ∀ (layers : Layers) key, layers.Counts key p.node → ∀ around s,
          (layers.value? around key).run s = (.ok (some (.int n)), s)) ∧
    ∀ key, Context.component.allows key = true →
      ∃ d c, Definitions.read (textWith key written) = .ok d ∧ d.components = [c] ∧
        ∀ element around s, ((Layers.of c.node.properties (d.defaults.map Spanned.node)
          element).value? around key).run s = (.ok (some (.int n)), s) := by
  refine ⟨fun text d hd p hp hwritten layers key hcounts around s => ?_, fun key hkey => ?_⟩
  · refine hcounts.value? rfl fun source => ?_
    rw [h.literal_eq hd hp hwritten]
    exact run_evaluate_writes h hn source
  · obtain ⟨d, c, p, hread, hcomponents, hlast, rfl⟩ := exists_lastUnder_textWith h hkey
    refine ⟨d, c, hread, hcomponents, fun element around s => ?_⟩
    exact (Layers.Counts.own hlast).value? rfl fun source => run_evaluate_writes h hn source

/-- A negative integer in a code block among the defaults, with blanks around it. -/
def negativeText : List Char :=
  "defaults \x7b repeat \x60\x60\x60 -5\n\x60\x60\x60 \x7d components \x7b \x7d".toList

theorem integer_resolves_negativeText :
    ∃ d p, Definitions.read negativeText = .ok d ∧ p ∈ d.allProperties ∧
      slice p.node.literal.span negativeText = "\x60\x60\x60 -5\n\x60\x60\x60".toList ∧
      ∀ around s, ((Layers.mk [] [p.node] "web").value? around .repetition).run s =
        (.ok (some (.int (-5))), s) := by
  have hread : (Definitions.read negativeText).toOption.map
      (fun d => d.allProperties.map fun p => (p.node.key.node, p.node.literal.span)) =
        some [(.repetition, ⟨18, 28⟩)] := by
    decide +kernel
  obtain ⟨d, hd, hproperties⟩ := Definitions.exists_read_of_map hread
  obtain ⟨p, hp, hparts⟩ := List.map_eq_singleton_iff.1 hproperties
  obtain ⟨hkey, hspan⟩ := Prod.mk.inj hparts
  have hmem : p ∈ d.allProperties := by
    rw [hp]
    exact List.mem_cons_self
  have hslice : slice p.node.literal.span negativeText =
      "\x60\x60\x60 -5\n\x60\x60\x60".toList := by
    rw [hspan]
    decide +kernel
  have hwritten : Writes (-5) "\x60\x60\x60 -5\n\x60\x60\x60".toList
      (.code (String.ofList " -5\n".toList)) := by
    have htext : "\x60\x60\x60 -5\n\x60\x60\x60".toList =
        Reading.fence ++ " -5\n".toList ++ Reading.fence := by
      decide +kernel
    rw [htext]
    exact .code (by decide +kernel)
  have hcounts : (Layers.mk [] [p.node] "web").Counts .repetition p.node :=
    .default (List.forall_mem_nil _) ⟨[], [], rfl, hkey, by simp⟩
  have hresolves := integer_resolves (-5) _ _ hwritten fun h => absurd h (by decide)
  exact ⟨d, p, hd, hmem, hslice, fun around s =>
    hresolves.1 negativeText d hd p hmem hslice _ _ hcounts around s⟩

/-- In a code block, the smallest integer is not an integer. -/
theorem integer_resolves_smallest :
    (∃ d c, Definitions.read
        (textWith .repetition "-9223372036854775808".toList) = .ok d ∧ d.components = [c] ∧
      ∀ element around s, ((Layers.of c.node.properties (d.defaults.map Spanned.node)
        element).value? around .repetition).run s = (.ok (some (.int Int64.minValue)), s)) ∧
    ∃ d c, Definitions.read
        (textWith .repetition "\x60\x60\x60-9223372036854775808\x60\x60\x60".toList) = .ok d ∧
      d.components = [c] ∧
      ∀ element around s, ((Layers.of c.node.properties (d.defaults.map Spanned.node)
        element).value? around .repetition).run s =
          (.error (.evaluation "repeat" element "-9223372036854775808"
            ["1:2: Unexpected character(s) '9223372036854775808'"]), s) := by
  have hplain : Writes Int64.minValue "-9223372036854775808".toList (.int Int64.minValue) := by
    have htext : "-9223372036854775808".toList = Decimal.wordText Int64.minValue := by
      decide +kernel
    rw [htext]
    exact .plain
  have htrim : Text.trim "-9223372036854775808".toList = Decimal.wordText Int64.minValue := by
    decide +kernel
  have hcode : Writes Int64.minValue "\x60\x60\x60-9223372036854775808\x60\x60\x60".toList
      (.code (String.ofList "-9223372036854775808".toList)) := by
    have htext : "\x60\x60\x60-9223372036854775808\x60\x60\x60".toList =
        Reading.fence ++ "-9223372036854775808".toList ++ Reading.fence := by
      decide +kernel
    rw [htext]
    exact .code htrim
  obtain ⟨d, c, p, hread, hcomponents, hlast, hliteral⟩ :=
    exists_lastUnder_textWith hplain (by decide : Context.component.allows .repetition = true)
  obtain ⟨d', c', p', hread', hcomponents', hlast', hliteral'⟩ :=
    exists_lastUnder_textWith hcode (by decide : Context.component.allows .repetition = true)
  refine ⟨⟨d, c, hread, hcomponents, fun element around s => ?_⟩, d', c', hread', hcomponents',
    fun element around s => ?_⟩
  · refine (Layers.Counts.own hlast).value? rfl fun source => ?_
    rw [hliteral]
    rfl
  · have hown : LastUnder ((Layers.of c'.node.properties (d'.defaults.map Spanned.node)
        element).properties .own) .repetition p' := hlast'
    refine (Layers.Finds.failed (.failed hown ?_)).value?
    rw [hliteral', run_evaluate_code]
    exact Block.evaluateText_minValue around _ _ htrim s

end InfraGraph.Interpretation
