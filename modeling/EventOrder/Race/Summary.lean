import EventOrder.Footprint

/-!
# Summary of footprints

For every state and event the summary gathers accesses that were seen in that state or after it:
those of the event itself, and those of later events that depend on it. Absorbing a footprint
answers what of it was news.
-/

namespace EventOrder

/-- The footprints gathered for every state and event. -/
structure Summary where
  /-- The footprint of each event at each state; a state is listed once it has a footprint. -/
  entries : Std.ExtTreeMap StateId (Std.ExtTreeMap Event Footprint)
deriving DecidableEq, Inhabited

namespace Summary

/-- The summary that knows nothing. -/
def empty : Summary := ⟨∅⟩

/-- The footprint of an event at a state, if one was absorbed. -/
def get? (summary : Summary) (state : StateId) (event : Event) : Option Footprint :=
  summary.entries[state]?.bind (·[event]?)

/-- The footprint of an event at a state, empty when none was absorbed. -/
def footprintAt (summary : Summary) (state : StateId) (event : Event) : Footprint :=
  (summary.get? state event).getD .empty

/-- The events with a footprint at a state, ascending. -/
def eventsAt (summary : Summary) (state : StateId) : List Event :=
  (summary.entries[state]?.getD ∅).keys

/-- Whether some event has a footprint at the state. -/
def containsState (summary : Summary) (state : StateId) : Bool := summary.entries.contains state

/-- How many states have a footprint. -/
def stateCount (summary : Summary) : Nat := summary.entries.size

/-- Whether no state has a footprint. -/
def isEmpty (summary : Summary) : Bool := summary.entries.isEmpty

/-- Stores the footprint of an event at a state. -/
def insert (summary : Summary) (state : StateId) (event : Event) (footprint : Footprint) :
    Summary :=
  ⟨summary.entries.insert state ((summary.entries[state]?.getD ∅).insert event footprint)⟩

/-- Adds a footprint to that of an event at a state and answers the accesses that were not yet
there. An empty footprint leaves no trace. -/
def absorb (summary : Summary) (state : StateId) (event : Event) (footprint : Footprint) :
    Footprint × Summary :=
  if footprint.isEmpty then (footprint, summary)
  else
    let recorded := summary.footprintAt state event
    (footprint.minus recorded, summary.insert state event (recorded.merge footprint))

end Summary

end EventOrder
