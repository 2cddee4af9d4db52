import InfraGraph.Definition.Keyword
import InfraGraph.Text.Position

/-!
# Syntax errors

A syntax error says what is wrong, where, and which tokens would have been accepted there. The two
languages of the program, definitions and code blocks, share it.
-/

namespace InfraGraph.Reading

open InfraGraph.Text (Span Position)

/-- What is wrong with a text. -/
inductive Cause where
  /-- A code block is not closed. -/
  | openCode
  /-- A number is not a number of the language. -/
  | badNumber (text : List Char)
  /-- No token starts here. -/
  | stray (text : List Char)
  /-- A token stands where it cannot stand; it is given as described in messages. -/
  | unexpected (described : String)
  /-- The text ends too early. -/
  | unexpectedEnd
  /-- A word is not a keyword of its context. -/
  | notAProperty (word : String) (context : Context)
  /-- A word is not an event kind. -/
  | unknownEventKind (word : String)
  deriving Repr, Inhabited, DecidableEq

/-- The message for a cause. -/
def Cause.message : Cause → String
  | openCode => "Unterminated code block"
  | badNumber text => "Invalid number '" ++ String.ofList text ++ "'"
  | stray text => "Unexpected character(s) '" ++ String.ofList text ++ "'"
  | unexpected described => "Unexpected " ++ described
  | unexpectedEnd => "Unexpected end of input"
  | notAProperty word context => "'" ++ word ++ "' is not a valid " ++ context.label ++ " property"
  | unknownEventKind word => "Unknown event type '" ++ word ++ "'"

/-- A syntax error. -/
structure SyntaxError where
  span : Span
  cause : Cause
  /-- What would have been accepted, as described in messages, each once. -/
  expected : List String
  deriving Repr, Inhabited, DecidableEq

namespace SyntaxError

/-- The message of an error. -/
def message (e : SyntaxError) : String := e.cause.message

/-- The place in a text where an error starts. -/
def position (e : SyntaxError) (text : List Char) : Position := Position.ofOffset text e.span.start

end SyntaxError

end InfraGraph.Reading
