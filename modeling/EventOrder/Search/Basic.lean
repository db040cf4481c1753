import EventOrder.Explorer.Decision
import EventOrder.Explorer.Observation
import EventOrder.Machine.Basic
import EventOrder.Machine.Code
import EventOrder.Program.Check

/-!
# Searches

A search runs a program on a machine under the eyes of an explorer. It counts the events it
executes and may be limited to a number of them.
-/

namespace EventOrder

/-- A search of a program's states. -/
structure Search where
  /-- What the events do. -/
  code : Code
  /-- How many events may be executed; 0 for any number. -/
  limit : Nat
  /-- The machine that the program runs on. -/
  machine : Machine
  /-- The explorer that listens. -/
  explorer : Explorer Values PatternFilter
  /-- How many events were executed. -/
  executed : Nat

/-- How a search ended. -/
inductive Outcome where
  /-- Nothing is left to be tried. -/
  | complete
  /-- As many events were executed as may be. -/
  | limitReached
deriving DecidableEq, Repr, Inhabited

namespace Search

/-- The limit of a search for which none is given. -/
def defaultLimit : Nat := 1000000

/-- A search of a program, which has to be well formed. -/
def start (program : Program) (config : ExploreConfig) (limit : Nat) : Except Violation Search :=
  match program.violation? with
  | some violation => .error violation
  | none =>
    .ok {
      code := program.code
      limit := limit
      machine := .start program.code.initial
      explorer := .start config (.ofPatterns program.filter)
      executed := 0 }

/-- Whether as many events were executed as may be. -/
def atLimit (search : Search) : Bool := 0 < search.limit && search.limit ≤ search.executed

/-- Opens a decision point that offers all events, without telling the explorer. -/
def openPoint (search : Search) : Search × DecisionPoint :=
  let (machine, point) := search.machine.openPoint search.code.events
  ({ search with machine }, point)

/-- Opens a decision point that offers all events. -/
def registerPoint (search : Search) : Search × DecisionPoint :=
  let (search, point) := search.openPoint
  let (explorer, point) := search.explorer.pointRegistered point
  ({ search with explorer }, point)

/-- Takes on the explorer's reply and lets the machine do what it asks for. -/
def accept (search : Search) (reply : Reply Values PatternFilter) : Search :=
  { search with
    explorer := reply.explorer, machine := reply.requests.foldl Machine.obey search.machine }

/-- Executes an event chosen at a point: the accesses of its body are reported, and the machine
settles in the state that the body leads to. -/
def execute (search : Search) (point : PointId) (event : Event) : Search :=
  let body := search.code.body event
  let observations :=
    Instruction.observationsOfAll search.code.declarations point (.event point) body
  let explorer := observations.foldl
    (fun explorer observation => explorer.accessObserved observation.active observation.access)
    search.explorer
  let machine := search.machine.moveTo (Instruction.effectOfAll body search.machine.values)
  { search with
    machine, explorer := explorer.stateEntered machine.state, executed := search.executed + 1 }

end Search

end EventOrder
