/-!
# Keywords of definitions

A property is introduced by a keyword. Which keywords may stand where depends on the context: a
component definition, an event definition or the block of defaults.

## Main results

* `ofText?_text` — every keyword is read back from its spelling.
* `ofText?_eq_some_iff` — nothing else is a keyword.
-/

namespace InfraGraph

/-- The keywords that introduce properties. -/
inductive Keyword where
  | identifiers | id | name | layer | domain | environment | labels | processor | data | relations
  | healthMessage | health | repetition | eventProcessor | tags | title | message | links
  | previous | current
  deriving DecidableEq, Repr, Inhabited

namespace Keyword

/-- How a keyword is written. -/
def text : Keyword → String
  | identifiers => "identifiers"
  | id => "id"
  | name => "name"
  | layer => "layer"
  | domain => "domain"
  | environment => "environment"
  | labels => "labels"
  | processor => "processor"
  | data => "data"
  | relations => "relations"
  | healthMessage => "healthMessage"
  | health => "health"
  | repetition => "repeat"
  | eventProcessor => "eventProcessor"
  | tags => "tags"
  | title => "title"
  | message => "message"
  | links => "links"
  | previous => "previous"
  | current => "current"

/-- All keywords. -/
def all : List Keyword :=
  [identifiers, id, name, layer, domain, environment, labels, processor, data, relations,
    healthMessage, health, repetition, eventProcessor, tags, title, message, links, previous,
    current]

/-- The keyword with a spelling. -/
def ofText? (s : String) : Option Keyword := all.find? fun k => k.text == s

/-- No two keywords are spelled alike. -/
theorem text_injective {k l : Keyword} (h : k.text = l.text) : k = l := by
  cases k <;> cases l <;> first | rfl | simp [text] at h

theorem ofText?_text (k : Keyword) : ofText? k.text = some k := by cases k <;> rfl

theorem ofText?_eq_some_iff {s : String} {k : Keyword} : ofText? s = some k ↔ k.text = s := by
  constructor
  · intro h
    simpa using List.find?_some h
  · intro h
    rw [← h, ofText?_text]

end Keyword

/-- Where a property may stand. -/
inductive Context where
  | component | event | defaults
  deriving DecidableEq, Repr, Inhabited

namespace Context

/-- What a context is called in messages. -/
def label : Context → String
  | component => "component"
  | event => "event"
  | defaults => "defaults"

/-- Whether a property with this keyword may stand in a component definition. -/
def inComponent : Keyword → Bool
  | .identifiers | .id | .name | .layer | .domain | .environment | .labels | .processor | .data
  | .relations | .healthMessage | .health | .repetition => true
  | .eventProcessor | .tags | .title | .message | .links | .previous | .current => false

/-- Whether a property with this keyword may stand in an event definition. -/
def inEvent : Keyword → Bool
  | .title | .message | .identifiers | .tags | .links | .processor | .previous | .current => true
  | _ => false

/-- Whether a property with this keyword may stand in a context. Defaults hold what components take,
and besides the tags and the processor of events. -/
def allows : Context → Keyword → Bool
  | component, k => inComponent k
  | event, k => inEvent k
  | defaults, k => inComponent k || k == .eventProcessor || k == .tags

end Context

/-- The kinds of events that can be defined. -/
inductive EventKind where
  | elementPropertiesChanged
  deriving DecidableEq, Repr, Inhabited

namespace EventKind

/-- How an event kind is written. -/
def text : EventKind → String
  | elementPropertiesChanged => "ElementPropertiesChanged"

/-- The event kind with a spelling. -/
def ofText? (s : String) : Option EventKind :=
  if s = elementPropertiesChanged.text then some elementPropertiesChanged else none

theorem ofText?_eq_some_iff {s : String} {k : EventKind} : ofText? s = some k ↔ k.text = s := by
  cases k
  unfold ofText?
  split <;> simp_all [eq_comm]

end EventKind

end InfraGraph
