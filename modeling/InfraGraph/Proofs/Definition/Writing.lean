import InfraGraph.Definition.Basic
import InfraGraph.Definition.Token
import InfraGraph.Proofs.Reading.Sequences
import InfraGraph.Proofs.Reading.Spelling

/-!
# Writing definitions down

Definitions are written as tokens with one space between them; only the type of a component, which
is taken from the text as it stands there, is written as it is, whatever number of tokens it is read
as. Strings and the keys of members are quoted, integers are decimal, code stands between fences,
and items and members have a comma between them. The block of defaults and the section of events are
left out where there are none.

## Main definitions

* `Definitions.write` — definitions as a text.
* `Definitions.Writable` — the definitions that have a text.
-/

namespace InfraGraph.Definition

open Reading (moreTokens fence Piece tokenPiece)

/-! ## Tokens -/

/-- How a token is written. -/
def Token.spelling : Token → List Char
  | mark m => [m.char]
  | bool true => "true".toList
  | bool false => "false".toList
  | word text => text.toList
  | string text => Reading.quote text.toList
  | int n => Decimal.wordText n
  | float x => (Value.floatText x).toList
  | code body => fence ++ body.toList ++ fence

mutual

/-- The tokens of a literal. -/
def Literal.tokens : Literal → List Token
  | .string text => [.string text]
  | .int n => [.int n]
  | .float x => [.float x]
  | .bool b => [.bool b]
  | .code body => [.code body]
  | .list items => .mark .bracketOpen :: ((itemTokens items).tail ++ [.mark .bracketClose])
  | .object members => .mark .braceOpen :: ((memberTokens members).tail ++ [.mark .braceClose])

/-- The tokens of items, each behind a comma. -/
def itemTokens : List (Spanned Literal) → List Token
  | [] => []
  | ⟨_, item⟩ :: more => .mark .comma :: (item.tokens ++ itemTokens more)

/-- The tokens of members, each behind a comma. A key is always quoted. -/
def memberTokens : List (Spanned String × Spanned Literal) → List Token
  | [] => []
  | (⟨_, key⟩, ⟨_, value⟩) :: more =>
      .mark .comma :: .string key :: (value.tokens ++ memberTokens more)

end

/-- The tokens of a member. -/
def tokensOfMember (m : Spanned String × Spanned Literal) : List Token :=
  .string m.1.node :: m.2.node.tokens

/-- Items are written with commas between them. -/
theorem itemTokens_eq (items : List (Spanned Literal)) :
    itemTokens items = moreTokens (.mark .comma) (fun i => i.node.tokens) items false := by
  induction items with
  | nil => rfl
  | cons i more ih => rw [itemTokens, ih, Reading.moreTokens_cons]

/-- Members are written with commas between them. -/
theorem memberTokens_eq (members : List (Spanned String × Spanned Literal)) :
    memberTokens members = moreTokens (.mark .comma) tokensOfMember members false := by
  induction members with
  | nil => rfl
  | cons m more ih =>
      rw [memberTokens, ih, Reading.moreTokens_cons]
      rfl

/-- The tokens of a property. -/
def Property.tokens (p : Property) : List Token := .word p.key.node.text :: p.literal.node.tokens

/-- The tokens of properties between two marks. -/
def blockTokens (opening closing : Mark) (ps : List (Spanned Property)) : List Token :=
  .mark opening :: ((ps.flatMap fun p => p.node.tokens) ++ [.mark closing])

/-- The tokens of an event definition. -/
def EventDefinition.tokens (e : EventDefinition) : List Token :=
  .word e.kind.node.text :: blockTokens .parenOpen .parenClose e.properties

/-! ## Texts -/

/-- A part of a text that stands between two spaces. -/
inductive Part where
  | token (t : Token)
  | componentType (text : String)

/-- How a part is written. -/
def Part.spelling : Part → List Char
  | token t => t.spelling
  | componentType text => text.toList

/-- The parts that a component definition is written with. -/
def ComponentDefinition.parts (c : ComponentDefinition) : List Part :=
  .componentType c.componentType.node ::
    (blockTokens .parenOpen .parenClose c.properties).map .token

namespace Definitions

/-- The tokens before the first component. -/
def leadingTokens (d : Definitions) : List Token :=
  (d.defaults.elim [] fun ps =>
    .word "defaults" :: blockTokens .braceOpen .braceClose ps.node) ++
    [.word "components", .mark .braceOpen]

/-- The tokens behind the last component. -/
def trailingTokens (d : Definitions) : List Token :=
  .mark .braceClose ::
    if d.events.isEmpty then []
    else .word "events" :: .mark .braceOpen ::
      ((d.events.flatMap fun e => e.node.tokens) ++ [.mark .braceClose])

/-- The parts that definitions are written with. -/
def parts (d : Definitions) : List Part :=
  d.leadingTokens.map .token ++
    ((d.components.flatMap fun c => c.node.parts) ++ d.trailingTokens.map .token)

/-- Definitions as a text. -/
def write (d : Definitions) : List Char := [' '].intercalate (d.parts.map Part.spelling)

end Definitions

/-! ## Writable definitions -/

/-- The words with a meaning of their own. -/
def truthWords : List String := ["true", "True", "false", "False"]

/-- Whether a text is read as a word. -/
def isWord (text : String) : Bool := Reading.isPlainWord truthWords text

/-- What stands between two words of a component type. -/
inductive Joint where
  | dot | space

/-- How a joint is written. -/
def Joint.char : Joint → Char
  | dot => '.'
  | space => ' '

/-- A first word and further ones, each behind a joint. -/
def joined (first : String) (more : List (Joint × String)) : List Char :=
  first.toList ++ more.flatMap fun w => w.1.char :: w.2.toList

/-- The component types that can be written: words with a dot or a space between them. -/
def IsComponentType (text : String) : Prop :=
  ∃ first more, text.toList = joined first more ∧ isWord first = true ∧
    ∀ w ∈ more, isWord w.2 = true

/-- The code that can be written: there is no fence in it, and no backtick before the fence that
follows. -/
def IsBody (body : String) : Prop :=
  ¬ fence <:+: body.toList ∧ body.toList.getLast? ≠ some '\x60'

/-- The literals that can be written. -/
inductive Literal.Writable : Literal → Prop
  | string (text : String) : Writable (.string text)
  | int (n : Int64) : Writable (.int n)
  | bool (b : Bool) : Writable (.bool b)
  | code {body : String} (hbody : IsBody body) : Writable (.code body)
  | list {items : List (Spanned Literal)} (hitems : ∀ i ∈ items, Writable i.node) :
      Writable (.list items)
  | object {members : List (Spanned String × Spanned Literal)}
      (hmembers : ∀ m ∈ members, Writable m.2.node) : Writable (.object members)

/-- The properties that can be written in a context. -/
def WritableProperties (context : Context) (ps : List (Spanned Property)) : Prop :=
  ∀ p ∈ ps, context.allows p.node.key.node = true ∧ p.node.literal.node.Writable

/-- The definitions that can be written. -/
structure Definitions.Writable (d : Definitions) : Prop where
  defaults : ∀ ps ∈ d.defaults, WritableProperties .defaults ps.node
  componentTypes : ∀ c ∈ d.components, IsComponentType c.node.componentType.node
  components : ∀ c ∈ d.components, WritableProperties .component c.node.properties
  events : ∀ e ∈ d.events, WritableProperties .event e.node.properties

end InfraGraph.Definition
