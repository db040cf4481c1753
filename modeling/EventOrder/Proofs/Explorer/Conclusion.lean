import EventOrder.Proofs.Explorer.Weighing

/-!
# How a decision is concluded

A decision goes ahead, or the execution ends and the next one starts at the backtrack point taken
off the backlog. The restart is announced at once and adopted at the next decision; this file
describes the explorer once it is announced and once it is adopted, and also at the start of a new
round, which drops the execution under way as well.
-/

namespace EventOrder.Explorer

variable {σ φ : Type} {explorer : Explorer σ φ} {events : List Event} {decisions : Nat}

/-- The explorer after a decision for an event went ahead in a state. -/
def proceeded (explorer : Explorer σ φ) (state : StateId) (event : Event) : Explorer σ φ :=
  { explorer with
    statistics := explorer.statistics.record ⟨state, event⟩
    visits := (explorer.visits.take event).forgetRecent
    counter := explorer.counter + 1 }

/-- The explorer that starts over at a point taken off the backlog. -/
def restarted (explorer : Explorer σ φ) (next : BacktrackPoint) (rest : Backlog) :
    Explorer σ φ :=
  { explorer with
    knowledge :=
      { explorer.knowledge with
        log :=
          (explorer.knowledge.log.modify explorer.current Execution.release).add
            (placeholder (some next.conflict) next.state (next.first?.getD ⟨0⟩))
        backlog := rest }
    schedule := ⟨next.schedule⟩
    pendingSchedule := none
    counter := 0
    current := explorer.knowledge.log.next
    ended := false
    visits := ⟨∅, explorer.visits.earlier.insertMany explorer.visits.counts.keys, ∅, ∅⟩ }

/-- The requests that bring the host to a state of which a snapshot is given. -/
def returning (view : HostView σ) (state : StateId) (snapshot : σ) : List (HostRequest σ) :=
  if view.state = state then [] else [.restore snapshot]

/-- When the execution goes on, the decision goes ahead. -/
theorem conclude_false (explorer : Explorer σ φ) (view : HostView σ) (point : DecisionPoint)
    (event : Event) :
    explorer.conclude false view point event =
      ⟨explorer.proceeded view.state event, point, [], .ok .proceed⟩ := rfl

/-- Without a backtrack point there is nowhere to move on to. -/
theorem outcome_moveOn_of_pop?_eq_none (hpop : explorer.knowledge.backlog.pop? = none)
    (view : HostView σ) (point : DecisionPoint) :
    explorer.moveOn view point = ⟨explorer.endExecution, point.close, [], .ok .finished⟩ := by
  simp [moveOn, hpop]

/-- Moving on never lets a decision go ahead. -/
theorem outcome_moveOn_ne_proceed (explorer : Explorer σ φ) (view : HostView σ)
    (point : DecisionPoint) : (explorer.moveOn view point).outcome ≠ .ok .proceed := by
  unfold moveOn
  split
  · simp
  · dsimp only
    split <;> simp

/-- The explorer's answer when it moves on to a backtrack point: once the restart is adopted, the
next execution is under way. -/
structure Restarts (explorer : Explorer σ φ) (view : HostView σ) (next : BacktrackPoint)
    (rest : Backlog) (snapshot : σ) (reply : Reply σ φ) : Prop where
  /-- The host is to start over. -/
  outcome : reply.outcome = .ok .restarted
  /-- The execution is over for the host, which returns and offers the order of the point. -/
  requests : reply.requests =
    explorer.closeCurrent ++ returning view next.state snapshot ++ [.offer next.schedule]
  /-- The execution has ended. -/
  ended : reply.explorer.ended = true
  /-- The next decision adopts the restart. -/
  adopted : reply.explorer.adoptPending = explorer.restarted next rest

variable {next : BacktrackPoint} {rest : Backlog} {snapshot : σ}

/-- Moving on to a point whose state has a snapshot does not fail. -/
theorem moveOn_eq (hpop : explorer.knowledge.backlog.pop? = some (next, rest))
    (hsnapshot : explorer.snapshots[next.state]? = some snapshot) (view : HostView σ)
    (point : DecisionPoint) :
    explorer.moveOn view point =
      ⟨{ (({ explorer with knowledge := { explorer.knowledge with backlog := rest } } :
            Explorer σ φ).modifyCurrent Execution.release).beginExecution (some next.conflict)
            next.state (next.first?.getD ⟨0⟩) with
          pendingSchedule := some next.schedule }.endExecution, point,
        explorer.closeCurrent ++ returning view next.state snapshot ++ [.offer next.schedule],
        .ok .restarted⟩ := by
  by_cases hhere : view.state = next.state
  · simp [moveOn, hpop, returnTo, hhere, returning, closeCurrent]
  · simp [moveOn, hpop, returnTo, hhere, hsnapshot, returning, closeCurrent]

/-- Changing an execution leaves the name of the next one. -/
theorem next_modify (log : ExecutionLog) (id : ExecutionId)
    (change : Execution → Execution) : (log.modify id change).next = log.next := by
  simp [ExecutionLog.next, ExecutionLog.modify]

/-- The explorer that has announced a restart at a point taken off the backlog. -/
def announcing (explorer : Explorer σ φ) (next : BacktrackPoint) (rest : Backlog) :
    Explorer σ φ :=
  { explorer with
    knowledge :=
      { explorer.knowledge with
        log :=
          (explorer.knowledge.log.modify explorer.current Execution.release).add
            (placeholder (some next.conflict) next.state (next.first?.getD ⟨0⟩))
        backlog := rest }
    pendingSchedule := some next.schedule
    current := explorer.knowledge.log.next
    ended := true
    visits := explorer.visits.endExecution }

/-- Moving on finishes when nothing waits, and announces a restart otherwise, if the states that
points wait at have snapshots. -/
theorem moveOn_cases (explorer : Explorer σ φ)
    (hsnapshots : ∀ next rest, explorer.knowledge.backlog.pop? = some (next, rest) →
      next.state ∈ explorer.snapshots)
    (view : HostView σ) (point : DecisionPoint) :
    (explorer.knowledge.backlog.pop? = none ∧
        (explorer.moveOn view point).outcome = .ok .finished ∧
        (explorer.moveOn view point).explorer = explorer.endExecution) ∨
      ∃ next rest, explorer.knowledge.backlog.pop? = some (next, rest) ∧
        (explorer.moveOn view point).outcome = .ok .restarted ∧
        (explorer.moveOn view point).explorer = explorer.announcing next rest := by
  cases hpop : explorer.knowledge.backlog.pop? with
  | none =>
    rw [outcome_moveOn_of_pop?_eq_none hpop]
    exact Or.inl ⟨rfl, rfl, rfl⟩
  | some popped =>
    obtain ⟨next, rest⟩ := popped
    obtain ⟨snapshot, hkept⟩ := Option.isSome_iff_exists.mp
      (Std.ExtTreeMap.isSome_getElem?_iff_mem.mpr (hsnapshots next rest hpop))
    rw [moveOn_eq hpop hkept]
    refine Or.inr ⟨next, rest, rfl, rfl, ?_⟩
    simp only [beginExecution, modifyCurrent, endExecution, announcing, next_modify]

/-- A decision at which the execution ends starts over at the next backtrack point. -/
theorem conclude_restarts (hpop : explorer.knowledge.backlog.pop? = some (next, rest))
    (hsnapshot : explorer.snapshots[next.state]? = some snapshot) (view : HostView σ)
    (point : DecisionPoint) (event : Event) :
    explorer.Restarts view next rest snapshot (explorer.conclude true view point event) := by
  have hmove := moveOn_eq hpop hsnapshot view point
  refine ⟨?_, ?_, ?_, ?_⟩ <;> simp only [conclude, if_true, hmove]
  · rfl
  · simp only [beginExecution, modifyCurrent, endExecution, countDecision, adoptPending, restarted,
      next_modify, Visits.take, Visits.endExecution, Visits.forgetRecent, Visits.startExecution]

/-- So does a path that the host ends itself, once the last event is propagated. -/
theorem pathMatched_restarts {earlier : Explorer σ φ} (hreducing : earlier.reducing = true)
    {created : Nat} (hcompleted : earlier.completePrevious = (explorer, .ok created))
    (hpop : explorer.knowledge.backlog.pop? = some (next, rest))
    (hsnapshot : explorer.snapshots[next.state]? = some snapshot) (view : HostView σ)
    (point : DecisionPoint) :
    explorer.Restarts view next rest snapshot (earlier.pathMatched view point) := by
  have hmove := moveOn_eq hpop hsnapshot view point
  refine ⟨?_, ?_, ?_, ?_⟩ <;>
    simp only [pathMatched, hreducing, Bool.not_true, Bool.false_eq_true, if_false, hcompleted,
      hmove]
  · rfl
  · simp only [beginExecution, modifyCurrent, endExecution, countDecision, adoptPending, restarted,
      next_modify, Visits.endExecution, Visits.forgetRecent, Visits.startExecution]

/-- After a decision went ahead the same execution is under way. -/
theorem Underway.proceeded (h : explorer.Underway events decisions) (state : StateId)
    (event : Event) : (explorer.proceeded state event).Underway events decisions :=
  { reducing := h.reducing, offersSeen := h.offersSeen, pendingSchedule := h.pendingSchedule,
    ended := h.ended, lastEvent := h.lastEvent, order := h.order, nonempty := h.nonempty,
    made := h.made, latest := h.latest, coherent := h.coherent,
    snapshot_of_taken := h.snapshot_of_taken }

/-- A restart takes no transition and undoes none. -/
theorem taken?_restarted (explorer : Explorer σ φ) (next : BacktrackPoint) (rest : Backlog)
    (place : TransitionRef) :
    (explorer.restarted next rest).knowledge.log.taken? place =
      explorer.knowledge.log.taken? place :=
  ExecutionLog.taken?_supersede rfl _ _ place

/-- A restart records no access and drops none. -/
theorem footprint?_restarted (explorer : Explorer σ φ) (next : BacktrackPoint) (rest : Backlog)
    (place : TransitionRef) :
    (explorer.restarted next rest).knowledge.log.footprint? place =
      explorer.knowledge.log.footprint? place :=
  ExecutionLog.footprint?_supersede rfl _ _ place

/-- After a restart an execution is under way that has made no decision. -/
theorem Underway.restarted (h : explorer.Underway events decisions)
    (hschedule : next.schedule.Perm events) :
    (explorer.restarted next rest).Underway events 0 := by
  refine
    { reducing := h.reducing, offersSeen := h.offersSeen, pendingSchedule := rfl,
      ended := rfl, lastEvent := h.lastEvent, order := hschedule, nonempty := h.nonempty,
      made := ?_, latest := ?_, coherent := ⟨?_, ?_, h.coherent.event_of_summary⟩,
      snapshot_of_taken := ?_ }
  · refine ⟨placeholder (some next.conflict) next.state (next.first?.getD ⟨0⟩), ?_,
      Execution.made_start _ _⟩
    simp [Explorer.restarted, ExecutionLog.get?_add, next_modify]
  · simp [Explorer.restarted, ExecutionLog.next, ExecutionLog.add, ExecutionLog.modify]
  · intro state place hplace
    rw [taken?_restarted]
    exact h.coherent.taken_of_predecessor state place hplace
  · intro place transition htaken
    rw [taken?_restarted] at htaken
    exact h.coherent.event_of_taken place transition htaken
  · intro place transition htaken
    rw [taken?_restarted] at htaken
    exact h.snapshot_of_taken place transition htaken

/-- The explorer at the start of a new round. -/
def renewed (explorer : Explorer σ φ) : Explorer σ φ :=
  { explorer with
    knowledge :=
      { explorer.knowledge with
        log :=
          (explorer.knowledge.log.modify explorer.current Execution.release).add
            (placeholder none .split ⟨0⟩) }
    schedule := .empty
    pendingSchedule := none
    lastEvent := none
    counter := 0
    current := explorer.knowledge.log.next
    ended := false
    visits := .empty }

/-- Passing the split point starts a new round once it is armed, and arms it otherwise if there is
anything to reduce. -/
theorem splitAdvanced_eq (explorer : Explorer σ φ) :
    explorer.splitAdvanced =
      if explorer.reducing && explorer.splitPassed then explorer.renewed
      else { explorer with splitPassed := explorer.splitPassed || explorer.reducing } := by
  obtain ⟨_, _, knowledge, _, reducing, _, splitPassed, _, _, _, _, _, current, _, _, _, _⟩ :=
    explorer
  have hnext := next_modify knowledge.log current Execution.release
  cases reducing <;> cases splitPassed <;>
    simp [Explorer.splitAdvanced, renewed, Explorer.beginExecution, modifyCurrent, hnext]

end EventOrder.Explorer
