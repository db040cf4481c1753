import EventOrder.Identifier

/-!
# Visited states

Which states were entered when: in the execution under way and how often, in earlier executions of
the round, and since the last decision. For every state entered in the execution under way the
events taken since its first entry are kept; when they are all of the program's events, the state
has nothing new to offer on this path.
-/

namespace EventOrder

/-- The states entered in the round under way. -/
structure Visits where
  /-- How often a state was entered in the execution under way, for states new to the round. -/
  counts : Std.ExtTreeMap StateId Nat
  /-- The states entered in earlier executions of the round. -/
  earlier : Std.ExtTreeSet StateId
  /-- The states entered since the last decision. -/
  recent : Std.ExtTreeSet StateId
  /-- The events taken in the execution under way since a state was first entered in it. -/
  takenSince : Std.ExtTreeMap StateId (Std.ExtTreeSet Event)
deriving DecidableEq, Inhabited

namespace Visits

/-- The visits before any state is entered. -/
def empty : Visits := ⟨∅, ∅, ∅, ∅⟩

/-- Whether the state was entered in an earlier execution of the round. -/
def isEarlier (visits : Visits) (state : StateId) : Bool := visits.earlier.contains state

/-- Whether the state was entered more than once in the execution under way. -/
def isRepeated (visits : Visits) (state : StateId) : Bool := 1 < visits.counts[state]?.getD 0

/-- Enters a state. -/
def enter (visits : Visits) (state : StateId) : Visits where
  counts :=
    if visits.isEarlier state then visits.counts
    else visits.counts.insert state (visits.counts[state]?.getD 0 + 1)
  earlier := visits.earlier
  recent := visits.recent.insert state
  takenSince := visits.takenSince.insertIfNew state ∅

/-- Takes an event: it counts for every state entered in the execution under way. -/
def take (visits : Visits) (event : Event) : Visits :=
  { visits with takenSince := visits.takenSince.map fun _ taken => taken.insert event }

/-- Starts counting the states that the next decision leads to. -/
def forgetRecent (visits : Visits) : Visits := { visits with recent := ∅ }

/-- Ends the execution under way: its states become earlier ones. -/
def endExecution (visits : Visits) : Visits :=
  { visits with earlier := visits.earlier.insertMany visits.counts.keys }

/-- Starts the next execution of the round. -/
def startExecution (visits : Visits) : Visits := { visits with counts := ∅, takenSince := ∅ }

/-- Whether every event numbered up to `last` was taken in the execution under way since the state
was first entered in it. -/
def covers (visits : Visits) (last : Event) (state : StateId) : Bool :=
  match visits.takenSince[state]? with
  | none => false
  | some taken => (last.number + 1).all fun number _ => taken.contains ⟨number⟩

end Visits

end EventOrder
