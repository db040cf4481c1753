import EventOrder.Error
import EventOrder.Footprint.Conflict
import EventOrder.Trace.Execution
import EventOrder.Trace.Predecessors
import EventOrder.Trace.Reachability
import EventOrder.Race.Summary
import EventOrder.Race.Backlog

/-!
# Knowledge gathered by an exploration

What stays for the whole exploration, across executions: the recorded executions, the summary of
footprints, the reachability graph, the predecessors and the backlog. A conflict between an event
and a recorded place consumes one access of the event and may call for a backtrack point at that
place.
-/

namespace EventOrder

/-- All that an exploration keeps across executions. -/
structure Knowledge where
  /-- The executions started so far. -/
  log : ExecutionLog
  /-- The footprints gathered per state and event. -/
  summary : Summary
  /-- The places at which each state was left. -/
  reached : Reachability
  /-- The places that lead into each state. -/
  predecessors : Predecessors
  /-- The orders still to be tried. -/
  backlog : Backlog
deriving DecidableEq, Inhabited

namespace Knowledge

/-- Knowing nothing. -/
def empty : Knowledge := ⟨.empty, .empty, .empty, .empty, .empty⟩

/-- The transition at a place that must hold one. -/
def transitionAt (knowledge : Knowledge) (place : TransitionRef) :
    Except ExplorationError Transition :=
  match knowledge.log.transition? place with
  | some transition => .ok transition
  | none => .error (.unknownTransition place)

/-- What is left of an event's footprint once its first conflict with the accesses recorded at a
place is taken out of it. There is no conflict where nothing was recorded or the same event was
taken. -/
def takeConflict? (knowledge : Knowledge) (event : Event) (place : TransitionRef)
    (footprint : Footprint) : Except ExplorationError (Option Footprint) := do
  let transition ← knowledge.transitionAt place
  match knowledge.log.footprint? place with
  | none => return none
  | some recorded =>
    if transition.event = event then return none else return footprint.takeConflict? recorded

/-- Calls for the event to be taken first at the state of a place, with the others in reference
order; answers whether this order was not called for before. -/
def callFor (knowledge : Knowledge) (event : Event) (place : TransitionRef)
    (reference : List Event) : Except ExplorationError (Bool × Knowledge) := do
  let transition ← knowledge.transitionAt place
  let (admitted, backlog) := knowledge.backlog.add (.reorder transition.state event reference place)
  return (admitted, { knowledge with backlog })

end Knowledge

end EventOrder
