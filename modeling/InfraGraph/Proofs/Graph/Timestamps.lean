import InfraGraph.Graph.Basic

/-!
# Events made at another time

Two runs of the same program read the clock at different times, so what they have in common is seen
only where the times of the events are left aside. Whatever is done to an event while it is built
leaves its time as it is and does not depend on it.

## Main results

* `Event.untimed_stamped` — without its time, an event is the same whenever it was made.
* `Event.addIdentifier_stamped` and the others like it — the time is left as it is.
-/

namespace InfraGraph

namespace Event

/-- The event as made at another time. -/
def stamped (timestamp : String) (e : Event) : Event := { e with timestamp }

/-- The event with its time left aside. -/
def untimed (e : Event) : Event := e.stamped ""

variable (timestamp : String) (e : Event)

/-- Without its time, an event is the same whenever it was made. -/
@[simp] theorem untimed_stamped : (e.stamped timestamp).untimed = e.untimed := rfl

theorem blank_stamped (eventType : String) (category : EventCategory) (other : String) :
    (blank eventType category other).stamped timestamp = blank eventType category timestamp := rfl

theorem addTag_stamped (tag : String) :
    (e.stamped timestamp).addTag tag = (e.addTag tag).stamped timestamp := rfl

theorem addIdentifier_stamped (identifier : String) :
    (e.stamped timestamp).addIdentifier identifier =
      (e.addIdentifier identifier).stamped timestamp := by
  unfold addIdentifier
  show (if e.identifiers.contains identifier = true then _ else _) = _
  split
  · rfl
  · rfl

theorem setData_stamped (key : String) (value : Value) :
    (e.stamped timestamp).setData key value = (e.setData key value).stamped timestamp := rfl

end Event

/-- The graph with the times of its events left aside. -/
def Graph.untimed (g : Graph) : Graph := { g with events := g.events.map Event.untimed }

/-- Times can be forgotten before an event is added or after. -/
theorem Graph.untimed_addEvent (g : Graph) (e : Event) :
    (g.addEvent e).untimed = g.untimed.addEvent e.untimed := by
  simp [untimed, addEvent]

end InfraGraph
