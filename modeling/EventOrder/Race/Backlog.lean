import EventOrder.Identifier

/-!
# Backlog of backtrack points

A backtrack point is an event order still to be tried from a state. The backlog admits a point
once for each state and first event, and hands points out from the highest state first, oldest
first within a state.
-/

namespace EventOrder

/-- An event order to be tried from a state. -/
structure BacktrackPoint where
  /-- The state to start from. -/
  state : StateId
  /-- The order in which events are to be taken. -/
  schedule : List Event
  /-- The place whose conflict called for it. -/
  conflict : TransitionRef
deriving DecidableEq, Repr, Inhabited

namespace BacktrackPoint

/-- Moves one event to the front of a reference order. -/
def reorder (state : StateId) (first : Event) (reference : List Event) (conflict : TransitionRef) :
    BacktrackPoint :=
  ⟨state, first :: reference.filter (· ≠ first), conflict⟩

/-- The event to be taken first. -/
def first? (point : BacktrackPoint) : Option Event := point.schedule.head?

end BacktrackPoint

/-- The points waiting at one state; there is always at least one. -/
structure WaitingLine where
  /-- The point admitted first. -/
  oldest : BacktrackPoint
  /-- The others, in the order admitted. -/
  later : List BacktrackPoint
deriving DecidableEq, Repr, Inhabited

namespace WaitingLine

/-- The waiting points, in the order admitted. -/
def toList (line : WaitingLine) : List BacktrackPoint := line.oldest :: line.later

/-- Lets one more point wait. -/
def push (line : WaitingLine) (point : BacktrackPoint) : WaitingLine :=
  ⟨line.oldest, line.later ++ [point]⟩

/-- The line without its oldest point, when others wait. -/
def rest? (line : WaitingLine) : Option WaitingLine :=
  match line.later with
  | [] => none
  | oldest :: later => some ⟨oldest, later⟩

end WaitingLine

/-- The backtrack points still to be tried, and which ones were ever admitted. -/
structure Backlog where
  /-- The points waiting at each state. -/
  pending : Std.ExtTreeMap StateId WaitingLine
  /-- The states and first events of every point admitted so far, taken or not. -/
  constructed : Std.ExtTreeSet Firing
  /-- How many points were admitted. -/
  created : Nat
deriving DecidableEq, Inhabited

namespace Backlog

/-- The backlog before any point. -/
def empty : Backlog := ⟨∅, ∅, 0⟩

/-- Whether a point for the state and first event was ever admitted. -/
def isConstructed (backlog : Backlog) (state : StateId) (first : Event) : Bool :=
  backlog.constructed.contains ⟨state, first⟩

/-- The points waiting at a state, oldest first. -/
def pendingAt (backlog : Backlog) (state : StateId) : List BacktrackPoint :=
  (backlog.pending[state]?.map WaitingLine.toList).getD []

/-- Admits a point unless its schedule is empty or its state and first event were admitted before;
answers whether it was admitted. -/
def add (backlog : Backlog) (point : BacktrackPoint) : Bool × Backlog :=
  match point.first? with
  | none => (false, backlog)
  | some first =>
    if backlog.isConstructed point.state first then (false, backlog)
    else
      let line :=
        match backlog.pending[point.state]? with
        | some line => line.push point
        | none => ⟨point, []⟩
      (true,
        { pending := backlog.pending.insert point.state line
          constructed := backlog.constructed.insert ⟨point.state, first⟩
          created := backlog.created + 1 })

/-- The highest state at which a point waits. -/
def highest? (backlog : Backlog) : Option StateId := backlog.pending.keys.getLast?

/-- Takes the oldest point of the highest state at which one waits. -/
def pop? (backlog : Backlog) : Option (BacktrackPoint × Backlog) := do
  let state ← backlog.highest?
  let line ← backlog.pending[state]?
  let pending :=
    match line.rest? with
    | some rest => backlog.pending.insert state rest
    | none => backlog.pending.erase state
  return (line.oldest, { backlog with pending })

/-- How many points wait. -/
def size (backlog : Backlog) : Nat :=
  backlog.pending.foldl (fun total _ line => total + line.toList.length) 0

/-- Whether no point waits. -/
def isEmpty (backlog : Backlog) : Bool := backlog.pending.isEmpty

end Backlog

end EventOrder
