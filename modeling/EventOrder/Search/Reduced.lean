import EventOrder.Search.Turn

/-!
# The reduced search

The reduced search follows the explorer: it executes one event after another along one execution and
starts over when the explorer moves the machine to a backtrack point. Each turn is one decision.
-/

namespace EventOrder.Search

/-- Whether the machine itself matches its state and ends the path there: the state was met
before, the explorer knows nothing of its events because none of them touched a tracked field, and
every event was taken since the state was first entered. -/
def matchesState (search : Search) : Bool :=
  let explorer := search.explorer
  let state := search.machine.state
  0 < explorer.counter && !explorer.ended && !search.machine.isNew &&
    !explorer.knowledge.summary.containsState state && explorer.coversAllEvents state

/-- What the explorer says to the decision that is due. -/
def consult (search : Search) (point : DecisionPoint) : Reply Values PatternFilter :=
  if search.matchesState then search.explorer.pathMatched search.machine.view point
  else search.explorer.choiceAdvanced search.machine.view point.advance.2

/-- Goes on with the execution that the explorer moved the machine to. -/
def restart (search : Search) : Turn DecisionPoint :=
  let (machine, point) := search.machine.openInstalled
  .moved { search with machine } point

/-- Executes the event in force at a point, in the state that the decision was made in. -/
def fire (search : Search) (point : DecisionPoint) : Turn DecisionPoint :=
  match point.current with
  | none => .ended search (.ok .complete)
  | some event =>
    let (next, point) := (search.execute point.id event).registerPoint
    .fired ⟨search.machine.state, event⟩ next point

/-- One decision at a decision point. -/
def decide (search : Search) (point : DecisionPoint) : Turn DecisionPoint :=
  if search.machine.closed.contains point.id || !point.hasMore then
    .ended search (.ok .complete)
  else if search.atLimit then .ended search (.ok .limitReached)
  else
    let reply := search.consult point
    let search := search.accept reply
    match reply.outcome with
    | .error error => .ended search (.error error)
    | .ok .finished => .ended search (.ok .complete)
    | .ok .restarted => search.restart
    | .ok .proceed => search.fire reply.point

/-- A bound on the decisions of a reduced search. Every execution but the first starts with an
event in a state in which no other execution was started with it. An execution that comes to a
state a second time at the same place of its round has taken every event since, and ends there. -/
def decisionBound (search : Search) : Nat :=
  let firings := search.stateBound * search.code.bodies.length
  (firings + 1) * (firings + 2) + 1

/-- The reduced search from a decision point. -/
def reduced (search : Search) (point : DecisionPoint) : Attempt Search Outcome :=
  search.takeTurns decide search.decisionBound point

end EventOrder.Search
