import EventOrder.Access.Filter
import EventOrder.Decision.Point
import EventOrder.Decision.Schedule
import EventOrder.Explorer.Visits
import EventOrder.Race.Walk
import EventOrder.Statistics

/-!
# The explorer

The explorer listens to a host that runs the program. It keeps one execution under way, says which
event is due at every decision, records the accesses that the host reports, and moves the host to
the highest pending backtrack point when the execution has nothing new to offer.

The explorer never holds the host. Each step reads what it needs of the host from a view and
answers with requests that the host is to obey in order.
-/

namespace EventOrder

/-- How to explore. -/
structure ExploreConfig where
  /-- Whether to reduce; when not, transitions are only counted. -/
  stateReduction : Bool := true
  /-- The file that the final report is appended to. -/
  reportPath : Option String := none
  /-- The time budget in seconds; 0 for none. It is passed on as a setting, and no step here looks at
  a clock. -/
  maxTimeSeconds : Nat := 0
  /-- The most decisions per execution; 0 for no limit. -/
  maxDepth : Nat := 0
deriving DecidableEq, Repr, Inhabited

/-- What the host does after a decision. -/
inductive Flow where
  /-- The event in force at the decision point is to be run. -/
  | proceed
  /-- The execution has ended, and the host is at the start of the next one. -/
  | restarted
  /-- No order is left to be tried. -/
  | finished
deriving DecidableEq, Repr, Inhabited

/-- What a step reads of the host. It is read once for each call, before anything is asked of the
host: to close a decision point is taken not to move the host, so the state read here still tells
whether it has to be returned to a snapshot after its decision points were closed. -/
structure HostView (σ : Type) where
  /-- The state the host is in. -/
  state : StateId
  /-- A snapshot of the host as it is. -/
  snapshot : σ
deriving DecidableEq, Repr, Inhabited

/-- What the host is asked to do. -/
inductive HostRequest (σ : Type) where
  /-- The snapshot shown was kept for the state shown. -/
  | captured
  /-- The decision point is never to be advanced again. -/
  | close (point : PointId)
  /-- The host is to return to a snapshot. -/
  | restore (snapshot : σ)
  /-- A fresh decision point with these events is to be opened at the host's state. -/
  | offer (schedule : List Event)
deriving DecidableEq, Repr, Inhabited

/-- The explorer over hosts with snapshots of type `σ`, with a filter of type `φ`. -/
structure Explorer (σ φ : Type) where
  /-- How to explore. -/
  config : ExploreConfig
  /-- The filter to ask next. -/
  filter : φ
  /-- What is known so far. -/
  knowledge : Knowledge
  /-- The first snapshot seen of each state. -/
  snapshots : Std.ExtTreeMap StateId σ
  /-- Whether reordering is reduced; when not, transitions are only counted. -/
  reducing : Bool
  /-- Whether a decision point was registered, which settles whether there is anything to reduce. -/
  offersSeen : Bool
  /-- Whether the split point has been passed. -/
  splitPassed : Bool
  /-- The event order in force. -/
  schedule : Schedule
  /-- The event order that the next decision adopts. -/
  pendingSchedule : Option (List Event)
  /-- The last event of the order first offered in the round. -/
  lastEvent : Option Event
  /-- How many events are offered. -/
  events : Nat
  /-- How many decisions were made in the execution under way. -/
  counter : Nat
  /-- The execution under way. -/
  current : ExecutionId
  /-- Whether the execution under way has ended and the next has made no decision. -/
  ended : Bool
  /-- The states entered in the round. -/
  visits : Visits
  /-- The running counts. -/
  statistics : Statistics
  /-- The executions that made a decision, in order. -/
  history : Array ExecutionStart
deriving DecidableEq, Inhabited

/-- What an explorer answers at a decision. -/
structure Reply (σ φ : Type) where
  /-- The explorer after the step. -/
  explorer : Explorer σ φ
  /-- The decision point after the step. -/
  point : DecisionPoint
  /-- What the host is asked to do, in order. -/
  requests : List (HostRequest σ)
  /-- How the host goes on. -/
  outcome : Except ExplorationError Flow

namespace Explorer

variable {σ φ : Type}

/-- An execution that already holds the transition it will start with. -/
def placeholder (origin : Option TransitionRef) (state : StateId) (event : Event) : Execution :=
  (Execution.start origin).push ⟨event, state, none⟩

/-- An explorer before its first decision; its first execution starts from the split state. -/
def start (config : ExploreConfig) (filter : φ) : Explorer σ φ where
  config := config
  filter := filter
  knowledge := { Knowledge.empty with log := ⟨#[placeholder none .split ⟨0⟩]⟩ }
  snapshots := ∅
  reducing := config.stateReduction
  offersSeen := false
  splitPassed := false
  schedule := .empty
  pendingSchedule := none
  lastEvent := none
  events := 0
  counter := 0
  current := ⟨0⟩
  ended := false
  visits := .empty
  statistics := .empty
  history := #[]

/-- Changes the execution under way. -/
def modifyCurrent (explorer : Explorer σ φ) (change : Execution → Execution) : Explorer σ φ :=
  { explorer with
    knowledge :=
      { explorer.knowledge with log := explorer.knowledge.log.modify explorer.current change } }

/-- Adds an execution and makes it the one under way. -/
def beginExecution (explorer : Explorer σ φ) (origin : Option TransitionRef) (state : StateId)
    (event : Event) : Explorer σ φ :=
  let log := explorer.knowledge.log
  { explorer with
    current := log.next
    knowledge :=
      { explorer.knowledge with log := log.add (placeholder origin state event) } }

/-- The place of the last decision in the execution under way, when one was made. -/
def previousPlace? (explorer : Explorer σ φ) : Option TransitionRef :=
  if explorer.counter = 0 then none else some ⟨explorer.current, explorer.counter - 1⟩

/-- Whether every event was taken in the execution under way since the state was first entered in
it. -/
def coversAllEvents (explorer : Explorer σ φ) (state : StateId) : Bool :=
  match explorer.lastEvent with
  | none => false
  | some last => explorer.visits.covers last state

/-- The places left from any state numbered `state` or higher. -/
def reachableTransitions (explorer : Explorer σ φ) (state : StateId) :
    Std.ExtTreeSet TransitionRef :=
  explorer.knowledge.reached.reachableFrom state

/-- The places left from a state, or the last place of the execution under way when there are
none. -/
def reachableTransitionsAt (explorer : Explorer σ φ) (state : StateId) :
    Std.ExtTreeSet TransitionRef :=
  let size := ((explorer.knowledge.log.get? explorer.current).map (·.trace.size)).getD 0
  explorer.knowledge.reached.leavingAt state ⟨explorer.current, size - 1⟩

/-- The figures of the search so far. -/
def summary (explorer : Explorer σ φ) : SearchSummary where
  stateReduction := explorer.reducing
  events := explorer.events
  transitions := explorer.statistics.transitions
  uniqueTransitions := explorer.statistics.uniqueTransitions
  executions := explorer.history.size
  backtrackPoints := explorer.knowledge.backlog.created

end Explorer

end EventOrder
