import InfraGraph.Definition.Keyword
import InfraGraph.Text.Span

/-!
# Definitions

What one source text defines: components and events, each with properties in the order in which they
are written, and a block of defaults. Every part keeps the span it was read from.
-/

namespace InfraGraph.Definition

open InfraGraph.Text (Span)

/-- A part of a definition with the span it was read from. -/
structure Spanned (α : Type) where
  span : Span
  node : α
  deriving Inhabited

/-- A property value as it is written. -/
inductive Literal where
  | string (text : String)
  | int (n : Int64)
  | float (x : Float)
  | bool (b : Bool)
  | code (body : String)
  | list (items : List (Spanned Literal))
  | object (members : List (Spanned String × Spanned Literal))
  deriving Inhabited

/-- A property: a keyword and a value. -/
structure Property where
  key : Spanned Keyword
  literal : Spanned Literal
  deriving Inhabited

/-- The definition of a component, or of as many as its repetition says. -/
structure ComponentDefinition where
  componentType : Spanned String
  properties : List (Spanned Property)
  deriving Inhabited

/-- The definition of an event. -/
structure EventDefinition where
  kind : Spanned EventKind
  properties : List (Spanned Property)
  deriving Inhabited

/-- What one source text defines. -/
structure Definitions where
  defaults : Option (Spanned (List (Spanned Property)))
  components : List (Spanned ComponentDefinition)
  events : List (Spanned EventDefinition)
  deriving Inhabited

end InfraGraph.Definition
