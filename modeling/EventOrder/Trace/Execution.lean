import EventOrder.Footprint

/-!
# Executions

An execution is one contiguous run: the transitions taken, the footprint gathered at each
position, and the positions of the decision points that took them. Executions are kept in a log
that only grows; a place in the log is an execution and a position.
-/

namespace EventOrder

/-- One event taken in one state. -/
structure Transition where
  /-- The event taken. -/
  event : Event
  /-- The state in which it was taken. -/
  state : StateId
  /-- The decision point that took it, when known. -/
  point : Option PointId
deriving DecidableEq, Repr, Inhabited

/-- A run of transitions with what was recorded along it. -/
structure Execution where
  /-- The transitions, in the order taken. -/
  trace : Array Transition
  /-- The footprint gathered at a position. -/
  footprints : Std.ExtTreeMap Nat Footprint
  /-- The position that a decision point was last mapped to; nothing once the execution is
  superseded. -/
  positions : Option (Std.ExtTreeMap PointId Nat)
  /-- Whether the execution still waits for its first decision. -/
  fresh : Bool
  /-- The place whose conflict called for this execution. -/
  origin : Option TransitionRef
deriving DecidableEq, Inhabited

namespace Execution

/-- An execution before its first transition. -/
def start (origin : Option TransitionRef) : Execution := ⟨#[], ∅, some ∅, true, origin⟩

/-- Appends a transition at the end of the trace. -/
def push (execution : Execution) (transition : Transition) : Execution :=
  { execution with trace := execution.trace.push transition }

/-- Replaces the transition at a position, when there is one. -/
def replace (execution : Execution) (position : Nat) (transition : Transition) : Execution :=
  { execution with trace := execution.trace.setIfInBounds position transition }

/-- Marks the first decision as made. -/
def settle (execution : Execution) : Execution := { execution with fresh := false }

/-- The footprint at a position, empty when none was gathered. -/
def footprintAt (execution : Execution) (position : Nat) : Footprint :=
  execution.footprints[position]?.getD .empty

/-- Stores the footprint of a position. -/
def setFootprint (execution : Execution) (position : Nat) (footprint : Footprint) : Execution :=
  { execution with footprints := execution.footprints.insert position footprint }

/-- Adds an access to the footprint at a position. -/
def recordAccess (execution : Execution) (position : Nat) (access : Access) : Execution :=
  execution.setFootprint position ((execution.footprintAt position).record access)

/-- Maps a decision point to a position, unless the execution is superseded. -/
def mapPoint (execution : Execution) (point : PointId) (position : Nat) : Execution :=
  { execution with positions := execution.positions.map (·.insert point position) }

/-- The position that a decision point was last mapped to. -/
def positionOf? (execution : Execution) (point : PointId) : Option Nat :=
  execution.positions.bind (·[point]?)

/-- Forgets the positions of decision points; footprints stay, as later walks still read them. -/
def release (execution : Execution) : Execution := { execution with positions := none }

/-- The decision points of the trace, in order. -/
def points (execution : Execution) : List PointId := execution.trace.toList.filterMap (·.point)

end Execution

/-- Every execution started so far. -/
structure ExecutionLog where
  /-- The executions, in the order started. -/
  executions : Array Execution
deriving DecidableEq, Inhabited

namespace ExecutionLog

/-- The log before any execution. -/
def empty : ExecutionLog := ⟨#[]⟩

/-- The name that the next execution gets. It never wraps around, so no two executions share a name;
kept in 32 bits, names are distinct for the first 2 ^ 32 executions. -/
def next (log : ExecutionLog) : ExecutionId := ⟨log.executions.size⟩

/-- Adds an execution under the name `next`. -/
def add (log : ExecutionLog) (execution : Execution) : ExecutionLog :=
  ⟨log.executions.push execution⟩

/-- The execution of that name. -/
def get? (log : ExecutionLog) (id : ExecutionId) : Option Execution := log.executions[id.number]?

/-- Changes the execution of that name, when there is one. -/
def modify (log : ExecutionLog) (id : ExecutionId) (change : Execution → Execution) :
    ExecutionLog :=
  ⟨log.executions.modify id.number change⟩

/-- The transition at a place. -/
def transition? (log : ExecutionLog) (place : TransitionRef) : Option Transition :=
  (log.get? place.execution).bind (·.trace[place.position]?)

/-- The footprint gathered at a place, if any was. -/
def footprint? (log : ExecutionLog) (place : TransitionRef) : Option Footprint :=
  (log.get? place.execution).bind (·.footprints[place.position]?)

end ExecutionLog

end EventOrder
