import InfraGraph.SemanticError
import InfraGraph.Text.Blank
import InfraGraph.Value.Basic

/-!
# Events

An event tells of a change to elements of the infrastructure, and of the time at which it was made.
It may carry links, which are written as `[description](url)`.
-/

namespace InfraGraph

/-- What sort of thing an event is. -/
inductive EventCategory where
  | activities | alerts | anomalies | changes | others
  deriving DecidableEq, Repr, Inhabited

namespace EventCategory

/-- How a category is written. -/
def text : EventCategory → String
  | activities => "Activities"
  | alerts => "Alerts"
  | anomalies => "Anomalies"
  | changes => "Changes"
  | others => "Others"

/-- All categories. -/
def all : List EventCategory := [activities, alerts, anomalies, changes, others]

/-- The category with a spelling. -/
def ofText? (s : String) : Option EventCategory := all.find? fun c => c.text == s

end EventCategory

/-- A link to where an event is told of. -/
structure SourceLink where
  title : String
  url : String
  deriving DecidableEq, Repr, Inhabited

namespace SourceLink

/-- Whether a text can be a title: it is not empty and has no newline. -/
def isTitle (cs : List Char) : Bool := !cs.isEmpty && cs.all (· != '\n')

/-- Whether a text can be a URL: it is not empty and has no blank. -/
def isUrl (cs : List Char) : Bool := !cs.isEmpty && cs.all fun c => !Text.isBlank c

/-- Splits a text at a `](` into a title and a URL with a closing parenthesis behind it, the title
as long as possible; `taken` is what has been passed already, backwards. -/
def splitFrom? : List Char → List Char → Option (List Char × List Char)
  | _, [] => none
  | taken, c :: cs =>
    (splitFrom? (c :: taken) cs).or <|
      match c :: cs with
      | ']' :: '(' :: rest =>
        if isTitle taken.reverse ∧ rest.getLast? = some ')' ∧ isUrl rest.dropLast then
          some (taken.reverse, rest.dropLast)
        else none
      | _ => none

/-- The link that a text writes. -/
def ofText? (s : String) : Option SourceLink :=
  match s.toList with
  | '[' :: cs => (splitFrom? [] cs).map fun (title, url) => ⟨String.ofList title, String.ofList url⟩
  | _ => none

/-- Reads a link on an event. -/
def read (link event : String) : Except SemanticError SourceLink :=
  match ofText? link with
  | some l => .ok l
  | none => .error (.malformedLink link event)

end SourceLink

/-- What a clock shows, as it is published, whenever an event is made: the number is that of the
events that are in the graph already. An event that cannot be built is never seen, nor is its time,
so the times of all events of a graph are given in this way. -/
abbrev Clock := Nat → String

/-- An event. -/
structure Event where
  eventType : String
  title : String
  message : String
  tags : List String
  /-- When it was made, as it is published. -/
  timestamp : String
  category : EventCategory
  data : Entries Value
  identifiers : List String
  links : List SourceLink
  deriving Inhabited

namespace Event

/-- An event of which nothing is known but its type, its category and when it was made. -/
def blank (eventType : String) (category : EventCategory) (timestamp : String) : Event where
  eventType
  title := ""
  message := ""
  tags := []
  timestamp
  category
  data := []
  identifiers := []
  links := []

/-- The event with a tag more. -/
def addTag (e : Event) (tag : String) : Event := { e with tags := e.tags ++ [tag] }

/-- The event with an identifier that it may have already. -/
def addIdentifier (e : Event) (identifier : String) : Event :=
  if e.identifiers.contains identifier then e
  else { e with identifiers := e.identifiers ++ [identifier] }

/-- The event with a piece of data set. -/
def setData (e : Event) (key : String) (value : Value) : Event :=
  { e with data := Entries.insert e.data key value }

/-- The event as code blocks see it; they do not see when it was made. -/
def toValue (e : Event) : Value :=
  .map [("event_type", .string e.eventType), ("title", .string e.title),
    ("message", .string e.message), ("tags", .strings e.tags),
    ("category", .string e.category.text), ("identifiers", .strings e.identifiers),
    ("data", .map e.data)]

end Event

end InfraGraph
