import InfraGraph.Definition.Token
import InfraGraph.Proofs.Definition.Placement
import InfraGraph.Proofs.Reading.Sequences

/-!
# The grammar of definitions, as derivation trees

A derivation of a list of tokens is a tree: its leaves, from left to right, are the tokens, and its
nodes are the rules of the grammar. With `|` for a choice, `*` for a repetition and `?` for an
option the rules are

* `Model = ('defaults' '{' Property* '}')? 'components' '{' Component* '}'`
  `('events' '{' Event* '}')?`,
* `Component = word (word | '.')* '(' Property* ')'` and `Event = kind '(' Property* ')'`,
* `Property = keyword Value ','?`, the keyword being one of the context,
* `Value = string | word | int | float | bool | code | '[' (Value (',' Value)* ','?)? ']'`
  `| '{' (Member (',' Member)* ','?)? '}'` and `Member = (word | string) Value`.

A tree has its tokens, which are what it derives, and it has a meaning, which are the definitions
without places and without the texts of the component types.

## Main definitions

* `ValueTree`, `PropertyTree`, `ComponentTree`, `EventTree`, `DefinitionsTree` — the derivations.
* `DefinitionsTree.tokens` — what is derived.
* `DefinitionsTree.definitions` — what is meant.
-/

namespace InfraGraph.Definition

open Reading (moreTokens)

/-! ## Values -/

/-- The key of a member. -/
inductive MemberKey where
  | word (text : String)
  | string (text : String)

namespace MemberKey

/-- The token that writes a key. -/
def token : MemberKey → Token
  | word text => .word text
  | string text => .string text

/-- The key that is meant. -/
def text : MemberKey → String
  | word text => text
  | string text => text

theorem token_injective {k l : MemberKey} (h : k.token = l.token) : k = l := by
  cases k <;> cases l <;> simp_all [token]

end MemberKey

/-- The derivation of a value. Lists and objects have a first item and further ones, unless they
are empty, and perhaps a comma behind the last one. -/
inductive ValueTree where
  | string (text : String)
  | word (text : String)
  | int (n : Int64)
  | float (x : Float)
  | bool (b : Bool)
  | code (body : String)
  | emptyList
  | list (first : ValueTree) (more : List ValueTree) (trailing : Bool)
  | emptyObject
  | object (key : MemberKey) (first : ValueTree) (more : List (MemberKey × ValueTree))
      (trailing : Bool)

namespace ValueTree

/-- Induction over values, with the hypothesis for every item of a list and for the value of every
member of an object. -/
@[elab_as_elim, induction_eliminator]
theorem induct {motive : ValueTree → Prop} (string : ∀ s, motive (string s))
    (word : ∀ s, motive (word s)) (int : ∀ n, motive (int n)) (float : ∀ x, motive (float x))
    (bool : ∀ b, motive (bool b)) (code : ∀ body, motive (code body))
    (emptyList : motive emptyList)
    (list : ∀ first more trailing, motive first → (∀ v ∈ more, motive v) →
      motive (list first more trailing))
    (emptyObject : motive emptyObject)
    (object : ∀ key first more trailing, motive first → (∀ m ∈ more, motive m.2) →
      motive (object key first more trailing)) (v : ValueTree) : motive v :=
  @ValueTree.rec motive (fun vs => ∀ v ∈ vs, motive v) (fun ms => ∀ m ∈ ms, motive m.2)
    (fun m => motive m.2) string word int float bool code emptyList
    (fun first more trailing hfirst hmore => list first more trailing hfirst hmore) emptyObject
    (fun key first more trailing hfirst hmore => object key first more trailing hfirst hmore)
    (fun _ h => absurd h List.not_mem_nil)
    (fun _ _ hv hvs => List.forall_mem_cons.2 ⟨hv, hvs⟩)
    (fun _ h => absurd h List.not_mem_nil)
    (fun _ _ hm hms => List.forall_mem_cons.2 ⟨hm, hms⟩)
    (fun _ _ hv => hv) v

mutual

/-- The tokens that a value derives. -/
def tokens : ValueTree → List Token
  | string text => [.string text]
  | word text => [.word text]
  | int n => [.int n]
  | float x => [.float x]
  | bool b => [.bool b]
  | code body => [.code body]
  | emptyList => [.mark .bracketOpen, .mark .bracketClose]
  | list first more trailing =>
      .mark .bracketOpen :: (first.tokens ++ (itemTokens more ++
        ((if trailing then [.mark .comma] else []) ++ [.mark .bracketClose])))
  | emptyObject => [.mark .braceOpen, .mark .braceClose]
  | object key first more trailing =>
      .mark .braceOpen :: key.token :: (first.tokens ++ (memberTokens more ++
        ((if trailing then [.mark .comma] else []) ++ [.mark .braceClose])))

/-- The tokens of further items, each behind a comma. -/
def itemTokens : List ValueTree → List Token
  | [] => []
  | v :: more => .mark .comma :: (v.tokens ++ itemTokens more)

/-- The tokens of further members, each behind a comma. -/
def memberTokens : List (MemberKey × ValueTree) → List Token
  | [] => []
  | (key, v) :: more => .mark .comma :: key.token :: (v.tokens ++ memberTokens more)

end

/-- The tokens that a member derives. -/
def tokensOfMember (m : MemberKey × ValueTree) : List Token := m.1.token :: m.2.tokens

private theorem itemTokens_eq_flatMap (vs : List ValueTree) :
    itemTokens vs = vs.flatMap fun v => .mark .comma :: v.tokens := by
  induction vs with
  | nil => rfl
  | cons v vs ih => rw [itemTokens, ih, List.flatMap_cons, List.cons_append]

private theorem memberTokens_eq_flatMap (ms : List (MemberKey × ValueTree)) :
    memberTokens ms = ms.flatMap fun m => .mark .comma :: tokensOfMember m := by
  induction ms with
  | nil => rfl
  | cons m ms ih =>
      rw [memberTokens, ih, List.flatMap_cons]
      rfl

/-- The tokens of a list are those of its items, between brackets and with commas. -/
theorem tokens_list (first : ValueTree) (more : List ValueTree) (trailing : Bool) :
    (list first more trailing).tokens = [.mark .bracketOpen] ++
      ((first.tokens ++ moreTokens (.mark .comma) tokens more trailing) ++
        [.mark .bracketClose]) := by
  rw [tokens, itemTokens_eq_flatMap, moreTokens]
  simp only [List.singleton_append, List.append_assoc]

/-- The tokens of an object are those of its members, between braces and with commas. -/
theorem tokens_object (key : MemberKey) (first : ValueTree)
    (more : List (MemberKey × ValueTree)) (trailing : Bool) :
    (object key first more trailing).tokens = [.mark .braceOpen] ++
      ((tokensOfMember (key, first) ++
        moreTokens (.mark .comma) tokensOfMember more trailing) ++ [.mark .braceClose]) := by
  rw [tokens, memberTokens_eq_flatMap, moreTokens, tokensOfMember]
  simp only [List.cons_append, List.nil_append, List.append_assoc]

mutual

/-- The literal that a value means. -/
def literal : ValueTree → Literal
  | string text => .string text
  | word text => .string text
  | int n => .int n
  | float x => .float x
  | bool b => .bool b
  | code body => .code body
  | emptyList => .list []
  | list first more _ => .list (nowhere first.literal :: itemLiterals more)
  | emptyObject => .object []
  | object key first more _ =>
      .object ((nowhere key.text, nowhere first.literal) :: memberLiterals more)

/-- The literals that items mean. -/
def itemLiterals : List ValueTree → List (Spanned Literal)
  | [] => []
  | v :: more => nowhere v.literal :: itemLiterals more

/-- What members mean. -/
def memberLiterals : List (MemberKey × ValueTree) → List (Spanned String × Spanned Literal)
  | [] => []
  | (key, v) :: more => (nowhere key.text, nowhere v.literal) :: memberLiterals more

end

/-- What a member means. -/
def literalOfMember (m : MemberKey × ValueTree) : Spanned String × Spanned Literal :=
  (nowhere m.1.text, nowhere m.2.literal)

/-- Items mean literals one by one. -/
theorem itemLiterals_eq_map (vs : List ValueTree) :
    itemLiterals vs = vs.map fun v => nowhere v.literal := by
  induction vs with
  | nil => rfl
  | cons v vs ih => rw [itemLiterals, ih, List.map_cons]

/-- Members mean literals one by one. -/
theorem memberLiterals_eq_map (ms : List (MemberKey × ValueTree)) :
    memberLiterals ms = ms.map literalOfMember := by
  induction ms with
  | nil => rfl
  | cons m ms ih =>
      rw [memberLiterals, ih, List.map_cons]
      rfl

end ValueTree

/-! ## Properties, components and events -/

/-- The derivation of a property in a context. -/
structure PropertyTree (context : Context) where
  keyword : Keyword
  allowed : context.allows keyword = true
  value : ValueTree
  /-- Whether there is a comma behind the value. -/
  comma : Bool

namespace PropertyTree

variable {context : Context}

/-- The tokens that a property derives. -/
def tokens (p : PropertyTree context) : List Token :=
  .word p.keyword.text :: (p.value.tokens ++ if p.comma then [.mark .comma] else [])

/-- The property that is meant. -/
def property (p : PropertyTree context) : Property := ⟨nowhere p.keyword, nowhere p.value.literal⟩

/-- The properties that are meant by several ones. -/
def properties (ps : List (PropertyTree context)) : List (Spanned Property) :=
  ps.map fun p => nowhere p.property

end PropertyTree

/-- What may stand behind the first word of a component type. -/
inductive TypePart where
  | dot
  | word (text : String)

/-- The token that writes a part of a component type. -/
def TypePart.token : TypePart → Token
  | dot => .mark .dot
  | word text => .word text

/-- The derivation of a component definition. -/
structure ComponentTree where
  first : String
  more : List TypePart
  properties : List (PropertyTree .component)

namespace ComponentTree

/-- The tokens of the component type. -/
def typeTokens (c : ComponentTree) : List Token := .word c.first :: c.more.map TypePart.token

/-- The tokens that a component definition derives. -/
def tokens (c : ComponentTree) : List Token :=
  c.typeTokens ++ ([.mark .parenOpen] ++
    (c.properties.flatMap PropertyTree.tokens ++ [.mark .parenClose]))

/-- The component definition that is meant, without the text of its type. -/
def definition (c : ComponentTree) : ComponentDefinition :=
  ⟨nowhere "", PropertyTree.properties c.properties⟩

end ComponentTree

/-- The derivation of an event definition. -/
structure EventTree where
  kind : EventKind
  properties : List (PropertyTree .event)

namespace EventTree

/-- The tokens that an event definition derives. -/
def tokens (e : EventTree) : List Token :=
  [.word e.kind.text] ++ ([.mark .parenOpen] ++
    (e.properties.flatMap PropertyTree.tokens ++ [.mark .parenClose]))

/-- The event definition that is meant. -/
def definition (e : EventTree) : EventDefinition :=
  ⟨nowhere e.kind, PropertyTree.properties e.properties⟩

end EventTree

/-! ## Whole texts -/

/-- The derivation of a source text. -/
structure DefinitionsTree where
  defaults : Option (List (PropertyTree .defaults))
  components : List ComponentTree
  events : Option (List EventTree)

/-- The tokens of a section: its name, and between braces its parts. -/
def sectionTokens (name : String) (parts : List Token) : List Token :=
  [.word name] ++ ([.mark .braceOpen] ++ (parts ++ [.mark .braceClose]))

namespace DefinitionsTree

/-- The tokens of the block of defaults, if any. -/
def defaultTokens (t : DefinitionsTree) : List Token :=
  t.defaults.elim [] fun ps => sectionTokens "defaults" (ps.flatMap PropertyTree.tokens)

/-- The tokens of the section of components. -/
def componentTokens (t : DefinitionsTree) : List Token :=
  sectionTokens "components" (t.components.flatMap ComponentTree.tokens)

/-- The tokens of the section of events, if any. -/
def eventTokens (t : DefinitionsTree) : List Token :=
  t.events.elim [] fun es => sectionTokens "events" (es.flatMap EventTree.tokens)

/-- The tokens that a source text derives. -/
def tokens (t : DefinitionsTree) : List Token :=
  t.defaultTokens ++ (t.componentTokens ++ t.eventTokens)

/-- The definitions that are meant, without the texts of the component types. -/
def definitions (t : DefinitionsTree) : Definitions where
  defaults := t.defaults.map fun ps => nowhere (PropertyTree.properties ps)
  components := t.components.map fun c => nowhere c.definition
  events := (t.events.getD []).map fun e => nowhere e.definition

end DefinitionsTree

end InfraGraph.Definition
