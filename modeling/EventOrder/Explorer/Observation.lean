import EventOrder.Explorer.Basic

/-!
# What the explorer observes

Steps in which the host only reports: a decision point was opened, a field was accessed, a state was
entered, the split point was passed.
-/

namespace EventOrder.Explorer

variable {σ φ : Type}

/-- Adopts the events that the first decision point of a round offers. -/
def adoptOffer (explorer : Explorer σ φ) (offered : List Event) : Explorer σ φ :=
  if explorer.schedule.isEmpty then
    let schedule : Schedule := ⟨offered⟩
    { explorer with schedule, lastEvent := schedule.last?, events := schedule.size }
  else explorer

/-- A decision point was opened. The first one settles whether there are events to reorder at all. A
point opened after the end of the execution is closed; any other offers the events in force, the one
that is due being pre-selected. -/
def pointRegistered (explorer : Explorer σ φ) (point : DecisionPoint) :
    Explorer σ φ × DecisionPoint :=
  let explorer :=
    if explorer.offersSeen then explorer
    else { explorer with
      offersSeen := true, reducing := explorer.reducing && !point.offered.isEmpty }
  if !explorer.reducing then (explorer, point)
  else if explorer.ended then (explorer, point.close)
  else
    let explorer := explorer.adoptOffer point.offered
    let point := point.offer explorer.schedule.order
    match explorer.schedule.eventAt? explorer.counter with
    | some event => (explorer, point.preselect event)
    | none => (explorer, point)

/-- The position to which an access under the active decision point belongs: that of the last
decision, or of the enclosing point when a secondary decision is running. -/
def accessPosition? (explorer : Explorer σ φ) (execution : Execution) (active : ActivePoint) :
    Option Nat :=
  match active with
  | .idle => none
  | .event _ => some (explorer.counter - 1)
  | .nested enclosing => execution.positionOf? enclosing

/-- The host ran an instruction. An access is recorded when an execution is under way, it belongs
to a decision of that execution, and the filter tracks it. -/
def accessObserved [AccessFilter φ] (explorer : Explorer σ φ) (active : ActivePoint)
    (access : Option Access) : Explorer σ φ :=
  if !explorer.reducing || explorer.ended || explorer.counter = 0 then explorer
  else
    match access, explorer.knowledge.log.get? explorer.current with
    | some access, some execution =>
      match explorer.accessPosition? execution active with
      | none => explorer
      | some position =>
        let (tracked, filter) := AccessFilter.consider explorer.filter access
        let explorer := { explorer with filter }
        if tracked then explorer.modifyCurrent (·.recordAccess position access) else explorer
    | _, _ => explorer

/-- The host entered a state, or came back to it. A state met again is recorded as one that the last
decision leads into. -/
def stateEntered (explorer : Explorer σ φ) (state : StateId) : Explorer σ φ :=
  if !explorer.reducing then explorer
  else
    let met := explorer.visits.isRepeated state || explorer.visits.isEarlier state
    let explorer :=
      if !explorer.ended && 1 < explorer.counter && !state.isSplit && met then
        { explorer with
          knowledge :=
            { explorer.knowledge with
              predecessors :=
                explorer.knowledge.predecessors.record state
                  ⟨explorer.current, explorer.counter - 1⟩ } }
      else explorer
    { explorer with visits := explorer.visits.enter state }

/-- The host passed the split point. The first time this only arms it; from then on it starts a new
round, in which nothing has been visited and the order is adopted anew, while the knowledge and the
snapshots stay. -/
def splitAdvanced (explorer : Explorer σ φ) : Explorer σ φ :=
  if !explorer.reducing then explorer
  else if !explorer.splitPassed then { explorer with splitPassed := true }
  else
    { ({ explorer with
        schedule := .empty
        pendingSchedule := none
        lastEvent := none
        counter := 0
        visits := .empty }.modifyCurrent Execution.release).beginExecution none .split ⟨0⟩ with
      ended := false }

end EventOrder.Explorer
