import InfraGraph.Definition.Basic
import InfraGraph.Definition.Token
import InfraGraph.Reading.Reader
import InfraGraph.Text.Blank

/-!
# The grammar of definitions

A source text is a block of defaults, if any, the section of components and the section of events,
if any. Properties stand one after the other, with or without a comma after each.

Every reader that repeats or nests takes a bound. It is chosen above the number of tokens of the
text, so it is never reached: each time a token is read, and only the last attempt reads nothing.
-/

namespace InfraGraph.Definition

open InfraGraph.Reading
open InfraGraph.Text (Span slice words)

namespace Grammar

/-- Reads a mark and gives its span. -/
def mark (m : Mark) : Reader Token Span :=
  Reader.lexeme [(Token.mark m).describe] fun x =>
    match x.token with
    | .mark k => if k = m then .take x.span else .pass
    | _ => .pass

/-- Reads a given word and gives its span. -/
def theWord (text : String) : Reader Token Span :=
  Reader.lexeme [(Token.word text).describe] fun x =>
    match x.token with
    | .word s => if s = text then .take x.span else .pass
    | _ => .pass

/-- Reads any word and gives its span. -/
def anyWord : Reader Token Span :=
  Reader.lexeme [] fun x =>
    match x.token with
    | .word _ => .take x.span
    | _ => .pass

/-- Reads what stands between two marks; the span includes the marks. -/
def between {α : Type} (opening closing : Mark) (p : Reader Token α) :
    Reader Token (Spanned α) := do
  let start ← mark opening
  let a ← p
  let stop ← mark closing
  return ⟨⟨start.start, stop.stop⟩, a⟩

/-! ## Literals -/

/-- Reads a literal of one token; a bare word means the string. -/
def scalar : Reader Token (Spanned Literal) :=
  Reader.lexeme [] fun x =>
    match x.token with
    | .string s => .take ⟨x.span, .string s⟩
    | .word s => .take ⟨x.span, .string s⟩
    | .int n => .take ⟨x.span, .int n⟩
    | .float y => .take ⟨x.span, .float y⟩
    | .bool b => .take ⟨x.span, .bool b⟩
    | .code body => .take ⟨x.span, .code body⟩
    | .mark _ => .pass

/-- Reads the key of a member. -/
def memberKey : Reader Token (Spanned String) :=
  Reader.lexeme [] fun x =>
    match x.token with
    | .word s => .take ⟨x.span, s⟩
    | .string s => .take ⟨x.span, s⟩
    | _ => .pass

/-- Reads a list of literals. -/
def list (literal : Reader Token (Spanned Literal)) (n : Nat) : Reader Token (Spanned Literal) := do
  let s ← between .bracketOpen .bracketClose (Reader.items literal (mark .comma) n)
  return ⟨s.span, .list s.node⟩

/-- Reads a member of an object. -/
def member (literal : Reader Token (Spanned Literal)) :
    Reader Token (Spanned String × Spanned Literal) := do
  let key ← memberKey
  let value ← literal
  return (key, value)

/-- Reads an object. -/
def object (literal : Reader Token (Spanned Literal)) (n : Nat) :
    Reader Token (Spanned Literal) := do
  let s ← between .braceOpen .braceClose (Reader.items (member literal) (mark .comma) n)
  return ⟨s.span, .object s.node⟩

/-- Reads a literal whose parts nest less deeply than the bound. -/
def literal : Nat → Reader Token (Spanned Literal)
  | 0, _ => ⟨none, none⟩
  | n + 1, xs => (scalar <|> list (literal n) n <|> object (literal n) n : Reader Token _) xs

/-! ## Properties -/

/-- Reads a keyword of a context. -/
def keyword (context : Context) : Reader Token (Spanned Keyword) :=
  Reader.lexeme [] fun x =>
    match x.token with
    | .word s =>
      match Keyword.ofText? s with
      | some k => if context.allows k then .take ⟨x.span, k⟩ else .refuse (.notAProperty s context)
      | none => .refuse (.notAProperty s context)
    | _ => .pass

/-- Reads a property and a comma after it, which does not belong to its span. -/
def property (context : Context) (n : Nat) : Reader Token (Spanned Property) := do
  let key ← keyword context
  let value ← literal n
  let _ ← Reader.optional (mark .comma)
  return ⟨⟨key.span.start, value.span.stop⟩, ⟨key, value⟩⟩

/-- Reads the properties of a context. -/
def properties (context : Context) (n : Nat) : Reader Token (List (Spanned Property)) :=
  Reader.many (property context n) n

/-- Reads the block of defaults. -/
def defaults (n : Nat) : Reader Token (Spanned (List (Spanned Property))) := do
  let start ← theWord "defaults"
  let s ← between .braceOpen .braceClose (properties .defaults n)
  return ⟨⟨start.start, s.span.stop⟩, s.node⟩

/-! ## Components -/

/-- The component type that a span of the text writes: its words, one space between them. -/
def typeText (text : List Char) (span : Span) : String :=
  String.ofList ([' '].intercalate (words (slice span text)))

/-- Reads a component type: words, with or without dots between them. -/
def componentType (text : List Char) (n : Nat) : Reader Token (Spanned String) := do
  let first ← anyWord
  let more ← Reader.many (mark .dot <|> anyWord) n
  let span : Span := ⟨first.start, (more.getLastD first).stop⟩
  return ⟨span, typeText text span⟩

/-- Reads the definition of a component. -/
def component (text : List Char) (n : Nat) : Reader Token (Spanned ComponentDefinition) := do
  let type ← componentType text n
  let s ← between .parenOpen .parenClose (properties .component n)
  return ⟨⟨type.span.start, s.span.stop⟩, ⟨type, s.node⟩⟩

/-- Reads the section of components. -/
def components (text : List Char) (n : Nat) :
    Reader Token (List (Spanned ComponentDefinition)) := do
  let _ ← theWord "components"
  let s ← between .braceOpen .braceClose (Reader.many (component text n) n)
  return s.node

/-! ## Events -/

/-- Reads an event kind. -/
def eventKind : Reader Token (Spanned EventKind) :=
  Reader.lexeme [] fun x =>
    match x.token with
    | .word s =>
      match EventKind.ofText? s with
      | some k => .take ⟨x.span, k⟩
      | none => .refuse (.unknownEventKind s)
    | _ => .pass

/-- Reads the definition of an event. -/
def event (n : Nat) : Reader Token (Spanned EventDefinition) := do
  let kind ← eventKind
  let s ← between .parenOpen .parenClose (properties .event n)
  return ⟨⟨kind.span.start, s.span.stop⟩, ⟨kind, s.node⟩⟩

/-- Reads the section of events. -/
def events (n : Nat) : Reader Token (List (Spanned EventDefinition)) := do
  let _ ← theWord "events"
  let s ← between .braceOpen .braceClose (Reader.many (event n) n)
  return s.node

/-- Reads a whole source text. -/
def definitions (text : List Char) (n : Nat) : Reader Token Definitions := do
  let someDefaults ← Reader.optional (defaults n)
  let allComponents ← components text n
  let someEvents ← Reader.optional (events n)
  return ⟨someDefaults, allComponents, someEvents.getD []⟩

end Grammar

/-- Reads what a source text defines. -/
def Definitions.read (text : List Char) : Except (List SyntaxError) Definitions := do
  let xs ← Token.lexemes text
  Reader.readAll (Grammar.definitions text (xs.length + 2)) Token.describe text xs

end InfraGraph.Definition
