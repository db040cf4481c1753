import EventOrder.Search.Turn

/-!
# The exhaustive search

The exhaustive search executes every event in every state that it comes across. The states still
to be expanded are kept on a stack, and the last one found is expanded first.
-/

namespace EventOrder

/-- What an exhaustive search has still to do. -/
structure Frontier where
  /-- The decision point in the state under expansion. -/
  point : DecisionPoint
  /-- The values that make this state. -/
  values : Values
  /-- The events still to be executed in it. -/
  events : List Event
  /-- The states to be expanded after it, the next one first. -/
  pending : List Values
deriving DecidableEq, Repr, Inhabited

namespace Search

/-- Takes the machine to the state with the given values. -/
def moveTo (search : Search) (values : Values) : Search :=
  { search with machine := search.machine.moveTo values }

/-- Starts to expand the next state on the stack. -/
def expandNext (search : Search) : List Values → Turn Frontier
  | [] => .ended search (.ok .complete)
  | values :: pending =>
    let (search, point) := (search.moveTo values).openPoint
    .moved search ⟨point, values, point.offered, pending⟩

/-- Executes an event in the state under expansion and puts the state it leads to on the stack, if
that was not come across before. -/
def branch (search : Search) (frontier : Frontier) (event : Event) (events : List Event) :
    Turn Frontier :=
  let search := search.moveTo frontier.values
  let reply := search.explorer.choiceAdvanced search.machine.view (frontier.point.force event)
  match reply.outcome with
  | .error error => .ended (search.accept reply) (.error error)
  | .ok _ =>
    let next := (search.accept reply).execute frontier.point.id event
    let found := if next.machine.isNew then [next.machine.values] else []
    .fired ⟨search.machine.state, event⟩ next
      { frontier with events, pending := found ++ frontier.pending }

/-- One step of the expansion: the next event in the state under expansion, or else the next
state. -/
def expand (search : Search) (frontier : Frontier) : Turn Frontier :=
  match frontier.events with
  | [] => search.expandNext frontier.pending
  | event :: events =>
    if search.atLimit then .ended search (.ok .limitReached)
    else search.branch frontier event events

/-- A bound on the steps of an exhaustive search: each state is expanded once and each event
executed once in it. -/
def expansionBound (search : Search) : Nat :=
  search.stateBound * (search.code.bodies.length + 1) + 1

/-- The exhaustive search from the machine's state. -/
def exhaustive (search : Search) (point : DecisionPoint) : Attempt Search Outcome :=
  let values := search.machine.values
  search.takeTurns expand search.expansionBound ⟨point, values, [], [values]⟩

end Search

end EventOrder
