import EventOrder.Explorer.Basic

/-!
# Decisions

The steps in which the explorer decides how the host goes on. A decision puts the due event in
force and is recorded at the end of the trace; then the accesses of the event before it are
propagated; then, if the states just entered show that the execution has nothing new to offer or
the depth limit is reached, the host is moved to the next backtrack point.
-/

namespace EventOrder.Explorer

variable {σ φ : Type}

/-- Starts the execution that the last restart announced, if there is one. -/
def adoptPending (explorer : Explorer σ φ) : Explorer σ φ :=
  match explorer.pendingSchedule with
  | none => explorer
  | some order =>
    { explorer with
      pendingSchedule := none
      counter := 0
      schedule := ⟨order⟩
      visits := explorer.visits.startExecution
      ended := false }

/-- Records a decision in the execution under way and answers its place. The first decision of an
execution takes the place that was held for it and enters the history; any later one is appended,
and the one before it is recorded as leading into its state. -/
def recordDecision (explorer : Explorer σ φ) (transition : Transition) :
    Attempt (Explorer σ φ) TransitionRef :=
  let unknown : Except ExplorationError TransitionRef :=
    .error (.unknownTransition ⟨explorer.current, explorer.counter⟩)
  match explorer.knowledge.log.get? explorer.current with
  | none => (explorer, unknown)
  | some execution =>
    if execution.fresh then
      if execution.trace.isEmpty then (explorer.modifyCurrent (·.settle), unknown)
      else
        let start : ExecutionStart :=
          ⟨explorer.current, transition.state, explorer.schedule.order⟩
        ({ explorer.modifyCurrent (·.settle.replace 0 transition) with
            history := explorer.history.push start },
          .ok ⟨explorer.current, 0⟩)
    else
      let explorer := explorer.modifyCurrent (·.push transition)
      let explorer :=
        match explorer.previousPlace? with
        | none => explorer
        | some place =>
          { explorer with
            knowledge :=
              { explorer.knowledge with
                predecessors := explorer.knowledge.predecessors.record transition.state place } }
      (explorer, .ok ⟨explorer.current, execution.trace.size⟩)

/-- Notes the place of a decision: it was left from every state entered since the decision before,
and its decision point stands at its position. -/
def notePlace (explorer : Explorer σ φ) (point : PointId) (place : TransitionRef) : Explorer σ φ :=
  let reached :=
    explorer.visits.recent.foldl (fun graph state => graph.record state place)
      explorer.knowledge.reached
  { explorer with knowledge := { explorer.knowledge with reached } }.modifyCurrent
    (·.mapPoint point place.position)

/-- Keeps the snapshot shown, if it is the first of its state. -/
def keepSnapshot (explorer : Explorer σ φ) (view : HostView σ) :
    Explorer σ φ × List (HostRequest σ) :=
  if explorer.snapshots.contains view.state then (explorer, [])
  else
    ({ explorer with snapshots := explorer.snapshots.insert view.state view.snapshot }, [.captured])

/-- Lets a step on the knowledge take place within the explorer. -/
def learn {α : Type} (explorer : Explorer σ φ) (attempt : Attempt Knowledge α) :
    Attempt (Explorer σ φ) α :=
  ({ explorer with knowledge := attempt.1 }, attempt.2)

/-- Propagates the accesses of the event before this decision, when there was one. -/
def completePrevious (explorer : Explorer σ φ) : Attempt (Explorer σ φ) Nat :=
  match explorer.previousPlace? with
  | none => (explorer, .ok 0)
  | some place => explorer.learn (explorer.knowledge.eventCompleted place explorer.schedule.order)

/-- Replays what is summarised at a state against a place as often as given. -/
def revisit (place : TransitionRef) (state : StateId) :
    Nat → Explorer σ φ → Attempt (Explorer σ φ) Unit
  | 0, explorer => (explorer, .ok ())
  | times + 1, explorer =>
    match explorer.learn
        (explorer.knowledge.stateRevisited state place explorer.schedule.order) with
    | (explorer, .ok _) => revisit place state times explorer
    | (explorer, .error error) => (explorer, .error error)

/-- Looks at states just entered, of which only those with a summary count. A state of an earlier
execution, or one since which every event was taken, ends the execution and is replayed; a state
entered repeatedly is replayed once more. Answers whether the execution ends. -/
def matchStates (place : TransitionRef) :
    List StateId → Explorer σ φ → Bool → Attempt (Explorer σ φ) Bool
  | [], explorer, ends => (explorer, .ok ends)
  | state :: states, explorer, ends =>
    if !explorer.knowledge.summary.containsState state then matchStates place states explorer ends
    else
      let matched := explorer.visits.isEarlier state || explorer.coversAllEvents state
      let repeated := explorer.visits.isRepeated state
      match explorer.revisit place state (matched.toNat + repeated.toNat) with
      | (explorer, .ok ()) => matchStates place states explorer (ends || matched)
      | (explorer, .error error) => (explorer, .error error)

/-- Whether the states entered since the last decision end the execution. -/
def hasNothingNew (explorer : Explorer σ φ) : Attempt (Explorer σ φ) Bool :=
  match explorer.previousPlace? with
  | none => (explorer, .ok false)
  | some place => matchStates place explorer.visits.recent.toList explorer false

/-- Whether the execution under way has made as many decisions as it may. -/
def atMaxDepth (explorer : Explorer σ φ) : Bool :=
  0 < explorer.config.maxDepth && explorer.config.maxDepth ≤ explorer.counter

/-- Ends the execution under way. -/
def endExecution (explorer : Explorer σ φ) : Explorer σ φ :=
  { explorer with visits := explorer.visits.endExecution, ended := true }

/-- The request that brings the host to a state: none when it is there already. -/
def returnTo (explorer : Explorer σ φ) (view : HostView σ) (state : StateId) :
    Except ExplorationError (List (HostRequest σ)) :=
  if view.state = state then .ok []
  else
    match explorer.snapshots[state]? with
    | some snapshot => .ok [.restore snapshot]
    | none => .error (.missingSnapshot state)

/-- The requests that close every decision point of the execution under way. -/
def closeCurrent (explorer : Explorer σ φ) : List (HostRequest σ) :=
  (((explorer.knowledge.log.get? explorer.current).map (·.points)).getD []).map .close

/-- Ends the execution under way and moves the host to the next backtrack point. When there is
none, the decision point is closed and the exploration is finished. -/
def moveOn (explorer : Explorer σ φ) (view : HostView σ) (point : DecisionPoint) : Reply σ φ :=
  match explorer.knowledge.backlog.pop? with
  | none => ⟨explorer.endExecution, point.close, [], .ok .finished⟩
  | some (next, backlog) =>
    let explorer := { explorer with knowledge := { explorer.knowledge with backlog } }
    match explorer.returnTo view next.state with
    | .error error => ⟨explorer, point, explorer.closeCurrent, .error error⟩
    | .ok returning =>
      let begun :=
        (explorer.modifyCurrent Execution.release).beginExecution (some next.conflict) next.state
          (next.first?.getD ⟨0⟩)
      ⟨{ begun with pendingSchedule := some next.schedule }.endExecution, point,
        explorer.closeCurrent ++ returning ++ [.offer next.schedule], .ok .restarted⟩

/-- Counts the decision just made. -/
def countDecision (explorer : Explorer σ φ) : Explorer σ φ :=
  { explorer with visits := explorer.visits.forgetRecent, counter := explorer.counter + 1 }

/-- Lets a decision go ahead, or moves on when the execution ends. -/
def conclude (explorer : Explorer σ φ) (ends : Bool) (view : HostView σ) (point : DecisionPoint)
    (event : Event) : Reply σ φ :=
  let reply : Reply σ φ :=
    if ends then explorer.moveOn view point
    else
      ⟨{ explorer with statistics := explorer.statistics.record ⟨view.state, event⟩ }, point, [],
        .ok .proceed⟩
  match reply.outcome with
  | .error _ => reply
  | .ok _ =>
    let explorer := { reply.explorer with visits := reply.explorer.visits.take event }
    { reply with explorer := explorer.countDecision }

/-- Makes the decision for the event that is due. -/
def decide (explorer : Explorer σ φ) (view : HostView σ) (point : DecisionPoint) (event : Event) :
    Reply σ φ :=
  match explorer.recordDecision ⟨event, view.state, some point.id⟩ with
  | (explorer, .error error) => ⟨explorer, point, [], .error error⟩
  | (explorer, .ok place) =>
    let (explorer, requests) := (explorer.notePlace point.id place).keepSnapshot view
    match explorer.completePrevious with
    | (explorer, .error error) => ⟨explorer, point, requests, .error error⟩
    | (explorer, .ok _) =>
      match explorer.hasNothingNew with
      | (explorer, .error error) => ⟨explorer, point, requests, .error error⟩
      | (explorer, .ok ends) =>
        let reply := explorer.conclude (ends || explorer.atMaxDepth) view point event
        { reply with requests := requests ++ reply.requests }

/-- The host advanced a decision point. Whatever came up there, the event that is due is put in
force; when no event is due, or transitions are only counted, the host goes on as it is. -/
def choiceAdvanced (explorer : Explorer σ φ) (view : HostView σ) (point : DecisionPoint) :
    Reply σ φ :=
  if !explorer.reducing then
    ⟨{ explorer with statistics := explorer.statistics.count }, point, [], .ok .proceed⟩
  else
    let explorer := explorer.adoptPending
    match explorer.schedule.eventAt? explorer.counter with
    | none => ⟨explorer, point, [], .ok .proceed⟩
    | some event => explorer.decide view (point.force event) event

/-- The host found its state matched and ends the path there, before advancing the point. The
accesses of the last event are propagated all the same. -/
def pathMatched (explorer : Explorer σ φ) (view : HostView σ) (point : DecisionPoint) : Reply σ φ :=
  if !explorer.reducing then ⟨explorer, point, [], .ok .proceed⟩
  else
    match explorer.completePrevious with
    | (explorer, .error error) => ⟨explorer, point, [], .error error⟩
    | (explorer, .ok _) =>
      let reply := explorer.moveOn view point
      match reply.outcome with
      | .error _ => reply
      | .ok _ => { reply with explorer := reply.explorer.countDecision }

end EventOrder.Explorer
