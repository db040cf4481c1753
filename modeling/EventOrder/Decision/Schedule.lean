import EventOrder.Identifier

/-!
# Schedules

A schedule is an order of events that is followed round and round, so over any stretch of decisions
all of its events come up equally often, up to one.
-/

namespace EventOrder

/-- The event order in force during an execution. -/
structure Schedule where
  /-- The events of one round. -/
  order : List Event
deriving DecidableEq, Repr, Inhabited

namespace Schedule

/-- The schedule that offers nothing. -/
def empty : Schedule := ⟨[]⟩

/-- The schedule of the events `0, 1, …, count - 1`. -/
def ascending (count : Nat) : Schedule := ⟨Event.firstEvents count⟩

/-- The event due at a decision, given how many decisions came before it. -/
def eventAt? (schedule : Schedule) (counter : Nat) : Option Event :=
  schedule.order[counter % schedule.order.length]?

/-- The last event of a round. -/
def last? (schedule : Schedule) : Option Event := schedule.order.getLast?

/-- How many events a round has. -/
def size (schedule : Schedule) : Nat := schedule.order.length

/-- Whether a round has no event. -/
def isEmpty (schedule : Schedule) : Bool := schedule.order.isEmpty

end Schedule

end EventOrder
