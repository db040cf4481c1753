import EventOrder.Identifier

/-!
# Decision points

A decision point offers a finite ordered list of events. Advancing it gives the pre-selected event
if there is one and otherwise the next listed event, so between two rewinds each listed event
comes up once and in order.
-/

namespace EventOrder

/-- A point of the program's run at which one of several events is taken. -/
structure DecisionPoint where
  /-- The host's name for the point. -/
  id : PointId
  /-- The events offered, in order. -/
  offered : List Event
  /-- How many of the offered events have come up. -/
  cursor : Nat
  /-- The event to come up next in place of the next offered one. -/
  preselected : Option Event
  /-- The event in force, once the point has been advanced. -/
  current : Option Event
  /-- Whether the point is closed for good. -/
  closed : Bool
deriving DecidableEq, Repr, Inhabited

namespace DecisionPoint

/-- A fresh decision point. -/
def start (id : PointId) (offered : List Event) : DecisionPoint :=
  ⟨id, offered, 0, none, none, false⟩

/-- Rewinds the point to its first offered event and opens it again. -/
def reset (point : DecisionPoint) : DecisionPoint := start point.id point.offered

/-- Replaces the offered events and rewinds. -/
def offer (point : DecisionPoint) (events : List Event) : DecisionPoint := start point.id events

/-- Makes the event come up at the next advance. -/
def preselect (point : DecisionPoint) (event : Event) : DecisionPoint :=
  { point with preselected := some event }

/-- Whether advancing would bring up an event. -/
def hasMore (point : DecisionPoint) : Bool :=
  !point.closed && (point.preselected.isSome || point.cursor < point.offered.length)

/-- Brings up the pre-selected event or else the next offered one. A closed point brings up
nothing and keeps its event in force. -/
def advance (point : DecisionPoint) : Option Event × DecisionPoint :=
  if point.closed then (none, point)
  else
    match point.preselected with
    | some event => (some event, { point with preselected := none, current := some event })
    | none =>
      match point.offered[point.cursor]? with
      | some event => (some event, { point with cursor := point.cursor + 1, current := some event })
      | none => (none, { point with current := none })

/-- Puts another event in force. -/
def force (point : DecisionPoint) (event : Event) : DecisionPoint :=
  { point with current := some event }

/-- Closes the point. -/
def close (point : DecisionPoint) : DecisionPoint := { point with closed := true }

end DecisionPoint

/-- The innermost decision point under which the host is running. -/
inductive ActivePoint where
  /-- No decision has been made yet. -/
  | idle
  /-- An event chosen at the point is running. -/
  | event (point : PointId)
  /-- A secondary decision is running inside the event chosen at `enclosing`. -/
  | nested (enclosing : PointId)
deriving DecidableEq, Repr, Inhabited

end EventOrder
