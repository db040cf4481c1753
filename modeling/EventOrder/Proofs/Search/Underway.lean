import EventOrder.Proofs.Explorer.Observing
import EventOrder.Proofs.Machine.Numbering
import EventOrder.Search.Run

/-!
# Reduced searches under way

Between two turns of a reduced search the announced restart, if there is one, can be taken as
adopted. The explorer then has an execution under way in the state that the machine stands in, all
snapshots restore the states they were taken of, and the decision point is open. No turn fails from
there: it executes the event that is due, or it moves to a backtrack point, or it ends the search.
-/

namespace EventOrder.Search

/-- The search with the announced restart adopted. -/
def adopt (search : Search) : Search :=
  { search with explorer := search.explorer.adoptPending }

/-- Adopting a restart leaves what is known. -/
theorem knowledge_adopt (search : Search) :
    search.adopt.explorer.knowledge = search.explorer.knowledge := by
  unfold adopt Explorer.adoptPending
  split <;> rfl

/-- The explorer after the due decision was recorded and learnt from. -/
def weighed (search : Search) (point : DecisionPoint) : Explorer Values PatternFilter :=
  if search.matchesState then search.explorer.completePrevious.1
  else
    match search.explorer.schedule.eventAt? search.explorer.counter with
    | some event => (search.explorer.noted search.machine.view point.id event).weighed
    | none => search.explorer

/-- The machine after an event was executed and the next decision point was opened. -/
def stepped (search : Search) (event : Event) : Machine :=
  ((search.machine.moveTo
    (Instruction.effectOfAll (search.code.body event) search.machine.values)).openPoint
      search.code.events).1

/-- The accesses of an event, in the order observed. -/
def accesses (search : Search) (point : PointId) (event : Event) : List Access :=
  (Instruction.observationsOfAll search.code.declarations point (.event point)
    (search.code.body event)).filterMap (·.access)

/-- The search after the event due was executed. -/
def advanced (search : Search) (point : DecisionPoint) (event : Event) : Search :=
  { search with
    machine := search.stepped event
    explorer :=
      (((search.weighed point).proceeded search.machine.state event).observed
        (search.accesses point.id event)).stateEntered (search.stepped event).state
    executed := search.executed + 1 }

/-- A reduced search between two turns, its announced restart adopted: the points in `waiting` wait
in the backlog and those in `taken` were taken off it. -/
structure Underway (search : Search) (point : DecisionPoint) (waiting taken : List BacktrackPoint) :
    Prop where
  /-- The explorer has an execution under way that holds every decision counted. -/
  explorer : search.explorer.Underway search.code.events search.explorer.counter
  /-- The machine stands in a numbered state. -/
  machine : search.machine.Settled
  /-- The backlog is in order. -/
  ledger : search.explorer.knowledge.backlog.Ledger waiting taken
  /-- Every point that waits has an order of all events. -/
  order_of_waiting : ∀ waits ∈ waiting, waits.schedule.Perm search.code.events
  /-- Every point that waits can be returned to. -/
  snapshot_of_waiting : ∀ waits ∈ waiting, waits.state ∈ search.explorer.snapshots
  /-- Every snapshot makes the state it was taken of. -/
  numbered_of_snapshot : ∀ (state : StateId) (values : Values),
    search.explorer.snapshots[state]? = some values →
      search.machine.numbering[values]? = some state
  /-- The state was entered by the last decision, if there was one. -/
  recent : search.explorer.visits.recent =
    if search.explorer.counter = 0 then ∅ else {search.machine.state}
  /-- No snapshot was taken of a state just discovered. -/
  undiscovered : 0 < search.explorer.counter → search.machine.isNew = true →
    search.machine.state ∉ search.explorer.snapshots
  /-- The decision point has a name that none of the points closed has. -/
  lt_of_closed : ∀ id ∈ search.machine.closed, id.number < point.id.number
  /-- The decision point has a name that no decision was made under. -/
  lt_of_taken : ∀ place transition,
    search.explorer.knowledge.log.taken? place = some transition →
      ∀ id ∈ transition.point, id.number < point.id.number
  /-- The next decision point will have another name. -/
  lt_next : point.id.number < search.machine.nextPoint.number
  /-- The decision point is open and offers an event. -/
  hasMore : point.hasMore = true

variable {search : Search} {point : DecisionPoint} {waiting taken : List BacktrackPoint}

/-- The decision point can be advanced. -/
theorem Underway.isOpen (h : search.Underway point waiting taken) :
    (search.machine.closed.contains point.id || !point.hasMore) = false := by
  have hnotClosed : search.machine.closed.contains point.id = false := by
    rw [← Bool.not_eq_true, Std.ExtTreeSet.contains_iff_mem]
    exact fun hclosed => absurd (h.lt_of_closed point.id hclosed) (Nat.lt_irrefl _)
  simp [h.hasMore, hnotClosed]

/-- A reduced search between two turns, its announced restart not yet adopted. -/
structure Ready (search : Search) (point : DecisionPoint) (waiting taken : List BacktrackPoint) :
    Prop where
  /-- A restart is announced only when the execution has ended. -/
  announced : search.explorer.pendingSchedule.isSome = true → search.explorer.ended = true
  /-- Once it is adopted, an execution is under way. -/
  underway : search.adopt.Underway point waiting taken

/-- Adopting a restart leaves it open whether there is anything to reduce. -/
private theorem reducing_adoptPending (explorer : Explorer Values PatternFilter) :
    explorer.adoptPending.reducing = explorer.reducing := by
  unfold Explorer.adoptPending
  split <;> rfl

/-- An announced restart is adopted before the explorer says anything to the next decision. -/
theorem Ready.consult_adopt (h : search.Ready point waiting taken) :
    search.adopt.consult point = search.consult point := by
  have hreducing : search.explorer.reducing = true :=
    (reducing_adoptPending search.explorer).symm.trans h.underway.explorer.reducing
  cases hpending : search.explorer.pendingSchedule with
  | none => simp [adopt, Explorer.adoptPending, hpending]
  | some order =>
    have hmatches : search.matchesState = false := by
      simp [matchesState, h.announced (by simp [hpending])]
    have hadopted : search.adopt.matchesState = false := by
      simp [matchesState, adopt, Explorer.adoptPending, hpending]
    simp only [consult, hmatches, hadopted]
    simp [adopt, Explorer.choiceAdvanced, Explorer.adoptPending, hpending, hreducing]

/-- So it makes no difference to a turn whether the restart was adopted before. -/
theorem Ready.decide_adopt (h : search.Ready point waiting taken)
    (hlimit : search.atLimit = false) : search.decide point = search.adopt.decide point := by
  have hopen := h.underway.isOpen
  have hunadopted : (search.machine.closed.contains point.id || !point.hasMore) = false := hopen
  have hlimitAdopted : search.adopt.atLimit = false := hlimit
  simp only [decide, hopen, hunadopted, hlimit, hlimitAdopted, h.consult_adopt]
  rfl

end EventOrder.Search
