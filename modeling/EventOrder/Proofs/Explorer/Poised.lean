import EventOrder.Proofs.Explorer.Callbacks
import EventOrder.Proofs.Explorer.Conclusion
import EventOrder.Proofs.Race.Gathering
import EventOrder.Proofs.Race.Grounded

/-!
# Explorers that can always go on

Whatever calls a host makes, the explorer can go back to every place and every state that it refers
to: recorded predecessors are places that were taken, and every state in which a transition was
taken or a backtrack point waits has a snapshot. So no call meets a place without a transition or a
state without a snapshot, except that nothing is promised to a host that asks how to go on after it
was told that the search is finished.
-/

namespace EventOrder

/-- Every place referred to was taken, and every state to return to has a snapshot. -/
structure Knowledge.Backed {σ : Type} (knowledge : Knowledge)
    (snapshots : Std.ExtTreeMap StateId σ) : Prop where
  /-- The recorded predecessors were taken. -/
  grounded : knowledge.Grounded
  /-- Every state that a transition was taken in has a snapshot. -/
  snapshot_of_taken : ∀ place transition,
    knowledge.log.taken? place = some transition → transition.state ∈ snapshots
  /-- Every state that a point waits at has a snapshot. -/
  snapshot_of_waiting : ∃ waiting taken, knowledge.backlog.Ledger waiting taken ∧
    ∀ point ∈ waiting, point.state ∈ snapshots

/-- An execution that a host may go on with after so many decisions: every decision point that it
knows stands at one of them. -/
structure Execution.Live (execution : Execution) (decisions : Nat) : Prop
    extends execution.Made decisions where
  /-- Decision points stand at decisions that were made. -/
  mapped_lt : ∀ point position, execution.positionOf? point = some position → position < decisions

namespace Knowledge.Backed

variable {σ : Type} {knowledge later : Knowledge} {snapshots : Std.ExtTreeMap StateId σ}

/-- Walks leave everything backed. -/
theorem calls (h : knowledge.Backed snapshots) (hcalls : knowledge.Calls later) :
    later.Backed snapshots := by
  refine ⟨hcalls.grounded h.grounded, ?_, ?_⟩
  · rw [hcalls.log_eq]
    exact h.snapshot_of_taken
  · obtain ⟨waiting, taken, hledger, hwaiting⟩ := h.snapshot_of_waiting
    obtain ⟨more, hmore, hcalled⟩ := hcalls.ledger waiting taken hledger
    refine ⟨waiting ++ more, taken, hmore, fun point hpoint => ?_⟩
    rcases List.mem_append.mp hpoint with hold | hnew
    · exact hwaiting point hold
    · obtain ⟨transition, htaken, hstate⟩ := hcalled point hnew
      rw [hstate]
      exact h.snapshot_of_taken _ transition htaken

/-- A log with the same transitions taken is as good. -/
theorem of_taken?_eq (h : knowledge.Backed snapshots) {log : ExecutionLog}
    (hlog : ∀ place, log.taken? place = knowledge.log.taken? place) :
    ({ knowledge with log } : Knowledge).Backed snapshots := by
  refine ⟨fun state place hplace => ?_, fun place transition htaken => ?_, h.snapshot_of_waiting⟩
  · obtain ⟨transition, htaken⟩ := h.grounded state place hplace
    exact ⟨transition, (hlog place).trans htaken⟩
  · exact h.snapshot_of_taken place transition ((hlog place).symm.trans htaken)

/-- A place that was taken may be recorded as leading into a state. -/
theorem record (h : knowledge.Backed snapshots) {place : TransitionRef}
    (hplace : ∃ transition, knowledge.log.taken? place = some transition) (state : StateId) :
    ({ knowledge with predecessors := knowledge.predecessors.record state place } :
      Knowledge).Backed snapshots := by
  refine ⟨fun other otherPlace hother => ?_, h.snapshot_of_taken, h.snapshot_of_waiting⟩
  rcases Predecessors.mem_of_record.mp hother with hold | ⟨-, rfl⟩
  · exact h.grounded other otherPlace hold
  · exact hplace

/-- A point that waits can be taken off the backlog, and its state has a snapshot. -/
theorem pop? (h : knowledge.Backed snapshots) {next : BacktrackPoint} {rest : Backlog}
    (hpop : knowledge.backlog.pop? = some (next, rest)) :
    next.state ∈ snapshots ∧ ({ knowledge with backlog := rest } : Knowledge).Backed snapshots := by
  obtain ⟨waiting, taken, hledger, hwaiting⟩ := h.snapshot_of_waiting
  obtain ⟨before, after, rfl, hrest, -⟩ := hledger.pop? hpop
  refine ⟨hwaiting next (by simp), h.grounded, h.snapshot_of_taken, _, _, hrest, ?_⟩
  intro point hpoint
  rcases List.mem_append.mp hpoint with hbefore | hafter
  · exact hwaiting point (by simp [hbefore])
  · exact hwaiting point (by simp [hafter])

end Knowledge.Backed

namespace Execution

/-- An execution that was just started is live. -/
theorem live_placeholder (origin : Option TransitionRef) (state : StateId) (event : Event) :
    (Explorer.placeholder origin state event).Live 0 where
  toMade := made_start origin ⟨event, state, none⟩
  mapped_lt point position hposition := by
    simp [Explorer.placeholder, start, push, positionOf?] at hposition

variable {execution : Execution} {decisions : Nat}

/-- An execution stays live through a decision. -/
theorem Live.take_mapPoint (h : execution.Live decisions) (transition : Transition)
    (point : PointId) :
    ((execution.take transition).mapPoint point decisions).Live (decisions + 1) where
  toMade := (h.toMade.take transition).mapPoint point decisions
  mapped_lt other position hposition := by
    simp only [positionOf?, mapPoint, positions_take, Option.bind_map] at hposition
    obtain ⟨positions, hmapped, hthere⟩ := Option.bind_eq_some_iff.mp hposition
    simp only [Function.comp_apply, Std.ExtTreeMap.getElem?_insert,
      Std.compare_eq_iff_eq] at hthere
    split at hthere
    · have : decisions = position := Option.some.inj hthere
      omega
    · have := h.mapped_lt other position (by simp [positionOf?, hmapped, hthere])
      omega

/-- An execution stays live when an access is recorded at one of its decisions. -/
theorem Live.recordAccess (h : execution.Live decisions) {position : Nat}
    (hposition : position < decisions) (access : Access) :
    (execution.recordAccess position access).Live decisions :=
  ⟨h.toMade.recordAccess hposition access, h.mapped_lt⟩

end Execution

namespace Explorer

variable {σ φ : Type} {explorer : Explorer σ φ}

/-- Opening a decision point settles what is offered and changes nothing else. -/
theorem pointRegistered_same (explorer : Explorer σ φ) (point : DecisionPoint) :
    ∃ reducing offersSeen schedule lastEvent events, (explorer.pointRegistered point).1 =
      { explorer with reducing, offersSeen, schedule, lastEvent, events } := by
  have hsettles : ∃ reducing offersSeen,
      (if explorer.offersSeen then explorer else { explorer with
        offersSeen := true, reducing := explorer.reducing && !point.offered.isEmpty }) =
        { explorer with reducing, offersSeen } := by
    split <;> exact ⟨_, _, rfl⟩
  obtain ⟨reducing, offersSeen, hsettled⟩ := hsettles
  obtain ⟨schedule, lastEvent, events, hadopted⟩ :
      ∃ schedule lastEvent events,
        ({ explorer with reducing, offersSeen } : Explorer σ φ).adoptOffer point.offered =
          { explorer with reducing, offersSeen, schedule, lastEvent, events } := by
    unfold adoptOffer
    split <;> exact ⟨_, _, _, rfl⟩
  unfold pointRegistered
  simp only [hsettled, hadopted]
  split
  · exact ⟨_, _, _, _, _, rfl⟩
  · split
    · exact ⟨_, _, _, _, _, rfl⟩
    · split <;> exact ⟨_, _, _, _, _, rfl⟩

/-- How many decisions were made in the execution that is next to go on. -/
def decisions (explorer : Explorer σ φ) : Nat := if explorer.ended then 0 else explorer.counter

/-- What an explorer keeps up whatever its host does; `finished` says whether the host was told
that no order is left to be tried. -/
structure Poised (explorer : Explorer σ φ) (finished : Bool) : Prop where
  /-- Whatever is referred to can be gone back to. -/
  backed : explorer.knowledge.Backed explorer.snapshots
  /-- The current execution can go on. -/
  live : finished = false → ∃ execution,
    explorer.knowledge.log.get? explorer.current = some execution ∧
      execution.Live explorer.decisions
  /-- A restart waits to be adopted exactly when the execution before it has ended. -/
  pendingSchedule : finished = false → explorer.pendingSchedule.isSome = explorer.ended
  /-- The execution has ended once nothing is left. -/
  ended : finished = true → explorer.ended = true

/-- An explorer is poised while a live execution is under way. -/
theorem poised_of_live (hbacked : explorer.knowledge.Backed explorer.snapshots)
    {execution : Execution}
    (hget : explorer.knowledge.log.get? explorer.current = some execution)
    (hlive : execution.Live explorer.counter) (hpending : explorer.pendingSchedule = none)
    (hended : explorer.ended = false) : explorer.Poised false where
  backed := hbacked
  live _ := ⟨execution, hget, by simpa [decisions, hended] using hlive⟩
  pendingSchedule _ := by simp [hpending, hended]
  ended := by simp

/-- Counting one more decision does not matter to an execution that has ended. -/
theorem Poised.count {finished : Bool} (h : explorer.Poised finished)
    (hended : explorer.ended = true) (visits : Visits) (counter : Nat) :
    ({ explorer with visits, counter } : Explorer σ φ).Poised finished where
  backed := h.backed
  live hfinished := by
    obtain ⟨execution, hget, hlive⟩ := h.live hfinished
    exact ⟨execution, hget, by simpa [decisions, hended] using hlive⟩
  pendingSchedule := h.pendingSchedule
  ended := h.ended

/-- The execution under way is live. -/
theorem Poised.live_of_not_ended (h : explorer.Poised false) (hended : explorer.ended = false) :
    ∃ execution, explorer.knowledge.log.get? explorer.current = some execution ∧
      execution.Live explorer.counter := by
  obtain ⟨execution, hget, hlive⟩ := h.live rfl
  exact ⟨execution, hget, by simpa [decisions, hended] using hlive⟩

/-- An explorer is poised before its first call. -/
theorem poised_start (config : ExploreConfig) (filter : φ) :
    (start config filter : Explorer σ φ).Poised false where
  backed := by
    refine ⟨fun state place hplace => ?_, fun place transition hplace => ?_,
      [], [], Backlog.ledger_empty, by simp⟩
    · simp [start, Knowledge.empty, Predecessors.of, Predecessors.empty] at hplace
    · simp [taken?_start] at hplace
  live _ := ⟨_, rfl, Execution.live_placeholder none .split ⟨0⟩⟩
  pendingSchedule _ := rfl
  ended := by simp

section Weighing

variable {execution : Execution}

/-- Recording a decision leaves everything backed. -/
theorem backed_noted (h : explorer.knowledge.Backed explorer.snapshots)
    (hget : explorer.knowledge.log.get? explorer.current = some execution)
    (hmade : execution.Made explorer.counter) (view : HostView σ) (point : PointId)
    (event : Event) :
    (explorer.noted view point event).knowledge.Backed
      (explorer.noted view point event).snapshots := by
  have htaken := taken?_noted hget hmade view point event
  have hkept (place : TransitionRef)
      (hplace : ∃ transition, explorer.knowledge.log.taken? place = some transition) :
      ∃ transition, (explorer.noted view point event).knowledge.log.taken? place =
        some transition := by
    rw [htaken]
    split
    · exact ⟨_, rfl⟩
    · exact hplace
  refine ⟨fun state place hplace => ?_, fun place transition hplace => ?_, ?_⟩
  · rcases mem_predecessors_noted.mp hplace with hold | ⟨-, hprevious⟩
    · exact hkept place (h.grounded state place hold)
    · exact hkept place (taken_of_previousPlace? hget hmade (Nat.le_refl _) hprevious)
  · rw [htaken] at hplace
    rw [mem_snapshots_noted]
    split at hplace
    · rw [← Option.some.inj hplace]
      exact Or.inl rfl
    · exact Or.inr (h.snapshot_of_taken place transition hplace)
  · obtain ⟨waiting, taken, hledger, hwaiting⟩ := h.snapshot_of_waiting
    exact ⟨waiting, taken, hledger,
      fun other hother => mem_snapshots_noted.mpr (Or.inr (hwaiting other hother))⟩

end Weighing

/-- Moving on does not fail; either a restart waits to be adopted, or the host is told that the
search is finished. -/
theorem moveOn_poised (explorer : Explorer σ φ)
    (h : explorer.knowledge.Backed explorer.snapshots) (view : HostView σ)
    (point : DecisionPoint) :
    ∃ flow, (explorer.moveOn view point).outcome = .ok flow ∧
      (explorer.moveOn view point).explorer.ended = true ∧
      (explorer.moveOn view point).explorer.Poised flow.isFinished := by
  rcases explorer.moveOn_cases (fun next rest hpop => (h.pop? hpop).1) view point with
    ⟨-, houtcome, hmoved⟩ | ⟨next, rest, hpop, houtcome, hmoved⟩
  · rw [houtcome, hmoved]
    exact ⟨.finished, rfl, rfl, h, by simp [Flow.isFinished], by simp [Flow.isFinished],
      fun _ => rfl⟩
  · rw [houtcome, hmoved]
    refine ⟨.restarted, rfl, rfl, ?_, fun _ => ?_, fun _ => rfl, by simp [Flow.isFinished]⟩
    · exact (h.pop? hpop).2.of_taken?_eq (ExecutionLog.taken?_supersede rfl _ _)
    · refine ⟨_, ?_, Execution.live_placeholder (some next.conflict) next.state
        (next.first?.getD ⟨0⟩)⟩
      simp [announcing, ExecutionLog.get?_add, next_modify]

/-- Adopting a restart makes its execution the one under way. -/
theorem Poised.adoptPending (h : explorer.Poised false) :
    explorer.adoptPending.Poised false ∧ explorer.adoptPending.ended = false := by
  have hpending := h.pendingSchedule rfl
  unfold Explorer.adoptPending
  cases horder : explorer.pendingSchedule with
  | none =>
    have hended : explorer.ended = false := by simpa [horder] using hpending.symm
    exact ⟨h, hended⟩
  | some order =>
    have hended : explorer.ended = true := by simpa [horder] using hpending.symm
    obtain ⟨execution, hget, hlive⟩ := h.live rfl
    have hnone : explorer.decisions = 0 := by simp [decisions, hended]
    exact ⟨⟨h.backed, fun _ => ⟨execution, hget, hnone ▸ hlive⟩, fun _ => rfl, by simp⟩, rfl⟩

/-- A decision of an execution under way is recorded and learnt from without failing, and then it is
concluded. What was learnt came from walks in the order in force. -/
theorem Poised.decide_eq (h : explorer.Poised false) (hended : explorer.ended = false)
    (view : HostView σ) (point : DecisionPoint) (event : Event) :
    ∃ later ended,
      (explorer.noted view point.id event).knowledge.Calls later ∧
      (explorer.noted view point.id event).knowledge.Gathers (fun _ => True)
        explorer.schedule.order later ∧
      later.Backed (explorer.noted view point.id event).snapshots ∧
      explorer.decide view point event =
        let concluded := ({ explorer.noted view point.id event with knowledge := later } :
          Explorer σ φ).conclude (ended || explorer.atMaxDepth) view point event
        { concluded with requests := explorer.capture view ++ concluded.requests } := by
  obtain ⟨execution, hget, hlive⟩ := h.live_of_not_ended hended
  have hnoted := backed_noted h.backed hget hlive.toMade view point.id event
  have hrooted (knowledge : Knowledge) : knowledge.Rooted fun _ => True := fun _ _ _ => trivial
  have htaken (place : TransitionRef) (hplace : explorer.previousPlace? = some place) :
      ∃ transition, (explorer.noted view point.id event).knowledge.log.taken? place =
        some transition := by
    rw [taken?_noted hget hlive.toMade]
    split
    · exact ⟨_, rfl⟩
    · exact taken_of_previousPlace? hget hlive.toMade (Nat.le_refl _) hplace
  let learnt := (explorer.noted view point.id event).knowledge
  let learns (later : Knowledge) : Prop :=
    learnt.Calls later ∧ learnt.Gathers (fun _ => True) explorer.schedule.order later
  obtain ⟨later, ended, hweighed, ⟨hcalls, hgathers⟩, hdecide, -⟩ := decide_induction
    (motive := learns) hget hlive.toMade view point event ⟨.refl _, .refl _ _ _⟩
    (fun place hplace => by
      obtain ⟨later, created, hlater, hcalls⟩ :=
        hnoted.grounded.eventCompleted_calls (Or.inr (htaken place hplace)) explorer.schedule.order
      have hgathers : learnt.Gathers (fun _ => True) explorer.schedule.order
          (learnt.eventCompleted place explorer.schedule.order).1 :=
        (hrooted learnt).eventCompleted_gathers (Or.inr trivial) _
      rw [hlater] at hgathers
      exact ⟨later, created, hlater, hcalls, hgathers⟩)
    (fun place hplace state _ knowledge ⟨hcalls, hgathers⟩ => by
      obtain ⟨transition, hthere⟩ := htaken place hplace
      obtain ⟨later, created, hlater, hthen⟩ :=
        (hcalls.grounded hnoted.grounded).stateRevisited_calls (hcalls.log_eq ▸ hthere) state
          explorer.schedule.order
      have hgathersThen : knowledge.Gathers (fun _ => True) explorer.schedule.order
          (knowledge.stateRevisited state place explorer.schedule.order).1 :=
        (hrooted knowledge).stateRevisited_gathers trivial state _
      rw [hlater] at hgathersThen
      exact ⟨later, created, hlater, hcalls.trans hthen, hgathers.trans hgathersThen⟩)
  exact ⟨later, ended, hcalls, hgathers, hnoted.calls hcalls, by rw [hdecide, hweighed]⟩

/-- A decision of an execution under way does not fail. -/
theorem Poised.decide (h : explorer.Poised false) (hended : explorer.ended = false)
    (view : HostView σ) (point : DecisionPoint) (event : Event) :
    ∃ flow, (explorer.decide view point event).outcome = .ok flow ∧
      (explorer.decide view point event).explorer.Poised flow.isFinished := by
  obtain ⟨execution, hget, hlive⟩ := h.live_of_not_ended hended
  obtain ⟨later, ended, hcalls, -, hbacked, hdecide⟩ := h.decide_eq hended view point event
  rw [hdecide]
  cases hends : ended || explorer.atMaxDepth with
  | true =>
    obtain ⟨flow, houtcome, hover, hmoved⟩ := moveOn_poised
      { explorer.noted view point.id event with knowledge := later } hbacked view point
    simp only [conclude, if_true, houtcome]
    exact ⟨flow, rfl, hmoved.count hover _ _⟩
  | false =>
    have hthere := get?_noted hget view point.id event
    rw [← hcalls.log_eq] at hthere
    have hpending : explorer.pendingSchedule = none := by
      simpa [hended] using h.pendingSchedule rfl
    exact ⟨.proceed, rfl,
      poised_of_live hbacked hthere (hlive.take_mapPoint _ _) hpending hended⟩

/-- A decision point may be advanced until the host is told that the search is finished. -/
theorem Poised.choiceAdvanced (h : explorer.Poised false) (view : HostView σ)
    (point : DecisionPoint) :
    ∃ flow, (explorer.choiceAdvanced view point).outcome = .ok flow ∧
      (explorer.choiceAdvanced view point).explorer.Poised flow.isFinished := by
  unfold Explorer.choiceAdvanced
  cases explorer.reducing with
  | false =>
    exact ⟨.proceed, rfl, h.backed, h.live, h.pendingSchedule, h.ended⟩
  | true =>
    obtain ⟨hadopted, hended⟩ := h.adoptPending
    simp only [Bool.not_true, Bool.false_eq_true, if_false]
    cases explorer.adoptPending.schedule.eventAt? explorer.adoptPending.counter with
    | none => exact ⟨.proceed, rfl, hadopted⟩
    | some event => exact hadopted.decide hended view (point.force event) event

/-- Propagating the accesses of the last event does not fail, whether or not its execution has
ended. What was learnt came from walks in the order in force. -/
theorem Poised.completePrevious_eq (h : explorer.Poised false) :
    ∃ later created, explorer.completePrevious =
        ({ explorer with knowledge := later }, .ok created) ∧
      explorer.knowledge.Calls later ∧
      explorer.knowledge.Gathers (fun _ => True) explorer.schedule.order later := by
  obtain ⟨execution, hget, hlive⟩ := h.live rfl
  -- A restart that no decision has adopted left the count of the execution before it behind, so
  -- the place looked at need not be taken; but then nothing was recorded there.
  have hplace (place : TransitionRef) (hplace : explorer.previousPlace? = some place) :
      explorer.knowledge.log.footprint? place = none ∨
        ∃ transition, explorer.knowledge.log.taken? place = some transition := by
    cases hended : explorer.ended with
    | true =>
      have hcurrent : place.execution = explorer.current := by
        unfold previousPlace? at hplace
        split at hplace
        · exact absurd hplace (by simp)
        · rw [← Option.some.inj hplace]
      have hnone : explorer.decisions = 0 := by simp [decisions, hended]
      refine Or.inl ?_
      simp [ExecutionLog.footprint?, hcurrent, hget,
        hlive.blank place.position (hnone ▸ Nat.zero_le _)]
    | false =>
      obtain ⟨execution, hget, hlive⟩ := h.live_of_not_ended hended
      exact Or.inr (taken_of_previousPlace? hget hlive.toMade (Nat.le_refl _) hplace)
  refine completePrevious_induction explorer
    (motive := fun later => explorer.knowledge.Calls later ∧
      explorer.knowledge.Gathers (fun _ => True) explorer.schedule.order later)
    ⟨.refl _, .refl _ _ _⟩ fun place hprevious => ?_
  obtain ⟨later, created, hlater, hcalls⟩ :=
    h.backed.grounded.eventCompleted_calls (hplace place hprevious) explorer.schedule.order
  have hgathers : explorer.knowledge.Gathers (fun _ => True) explorer.schedule.order
      (explorer.knowledge.eventCompleted place explorer.schedule.order).1 :=
    Knowledge.Rooted.eventCompleted_gathers (fun _ _ _ => trivial) (Or.inr trivial) _
  rw [hlater] at hgathers
  exact ⟨later, created, hlater, hcalls, hgathers⟩

/-- A path may be ended by the host just as well. -/
theorem Poised.pathMatched (h : explorer.Poised false) (view : HostView σ)
    (point : DecisionPoint) :
    ∃ flow, (explorer.pathMatched view point).outcome = .ok flow ∧
      (explorer.pathMatched view point).explorer.Poised flow.isFinished := by
  unfold Explorer.pathMatched
  cases explorer.reducing with
  | false => exact ⟨.proceed, rfl, h⟩
  | true =>
    obtain ⟨later, created, hcompleted, hcalls, -⟩ := h.completePrevious_eq
    obtain ⟨flow, houtcome, hover, hmoved⟩ := moveOn_poised
      { explorer with knowledge := later } (h.backed.calls hcalls) view point
    simp only [Bool.not_true, Bool.false_eq_true, if_false, hcompleted, houtcome]
    exact ⟨flow, rfl, hmoved.count hover _ _⟩

variable {finished : Bool}

/-- The search is not finished while an execution is under way. -/
theorem Poised.not_finished (h : explorer.Poised finished) (hended : explorer.ended = false) :
    finished = false := by
  rw [← Bool.not_eq_true]
  intro hfinished
  exact absurd (h.ended hfinished) (by simp [hended])

/-- An access belongs to a decision that was made. -/
private theorem lt_of_accessPosition? {execution : Execution}
    (hlive : execution.Live explorer.counter) (hcounter : explorer.counter ≠ 0)
    {active : ActivePoint} {position : Nat}
    (hposition : explorer.accessPosition? execution active = some position) :
    position < explorer.counter := by
  cases active with
  | idle => simp [accessPosition?] at hposition
  | event point =>
    have : explorer.counter - 1 = position := Option.some.inj hposition
    omega
  | nested enclosing => exact hlive.mapped_lt enclosing position hposition

/-- An access is recorded at a decision of the execution under way. -/
theorem Poised.accessObserved [AccessFilter φ] (h : explorer.Poised finished)
    (active : ActivePoint) (access : Option Access) :
    (explorer.accessObserved active access).Poised finished := by
  unfold Explorer.accessObserved
  by_cases hidle : (!explorer.reducing || explorer.ended || explorer.counter = 0) = true
  · rwa [if_pos hidle]
  · rw [if_neg hidle]
    have hended : explorer.ended = false := by
      cases hended : explorer.ended <;> simp_all
    have hcounter : explorer.counter ≠ 0 := by
      intro hnone
      simp [hnone] at hidle
    obtain rfl := h.not_finished hended
    obtain ⟨execution, hget, hlive⟩ := h.live_of_not_ended hended
    have hpending : explorer.pendingSchedule = none := by
      simpa [hended] using h.pendingSchedule rfl
    cases access with
    | none => exact h
    | some access =>
      simp only [hget]
      cases hposition : explorer.accessPosition? execution active with
      | none => exact h
      | some position =>
        have hbound := lt_of_accessPosition? hlive hcounter hposition
        dsimp only
        split
        · refine poised_of_live (h.backed.of_taken?_eq fun place => ?_) ?_
            (hlive.recordAccess hbound access) hpending hended
          · exact ExecutionLog.taken?_modify_of_same (·.recordAccess position access)
              (fun _ => rfl) (fun _ => rfl) _ _ place
          · simp [modifyCurrent, ExecutionLog.get?_modify, hget]
        · exact ⟨h.backed, h.live, h.pendingSchedule, h.ended⟩

/-- A state may be entered at any time. -/
theorem Poised.stateEntered (h : explorer.Poised finished) (state : StateId) :
    (explorer.stateEntered state).Poised finished := by
  unfold Explorer.stateEntered
  split
  · exact h
  · dsimp only
    split
    · rename_i hmet
      simp only [Bool.and_eq_true, Bool.not_eq_true', decide_eq_true_eq] at hmet
      obtain ⟨⟨⟨hended, hcounter⟩, -⟩, -⟩ := hmet
      obtain rfl := h.not_finished hended
      obtain ⟨execution, hget, hlive⟩ := h.live_of_not_ended hended
      have htaken := ExecutionLog.taken?_of_made hget hlive.toMade
        (show explorer.counter - 1 < explorer.counter by omega)
      exact ⟨h.backed.record htaken state, h.live, h.pendingSchedule, h.ended⟩
    · exact ⟨h.backed, h.live, h.pendingSchedule, h.ended⟩

/-- A decision point may be opened at any time. -/
theorem Poised.pointRegistered (h : explorer.Poised finished) (point : DecisionPoint) :
    (explorer.pointRegistered point).1.Poised finished := by
  obtain ⟨reducing, offersSeen, schedule, lastEvent, events, hregistered⟩ :=
    explorer.pointRegistered_same point
  rw [hregistered]
  exact ⟨h.backed, h.live, h.pendingSchedule, h.ended⟩

/-- Passing the split point may start a new round at any time, in which the host may ask how to go
on again. -/
theorem Poised.splitAdvanced (h : explorer.Poised finished) :
    explorer.splitAdvanced.Poised
      (if explorer.reducing && explorer.splitPassed then false else finished) := by
  rw [splitAdvanced_eq]
  split
  · refine poised_of_live (h.backed.of_taken?_eq (ExecutionLog.taken?_supersede rfl _ _)) ?_
      (Execution.live_placeholder none .split ⟨0⟩) rfl rfl
    simp [renewed, ExecutionLog.get?_add, next_modify]
  · exact ⟨h.backed, h.live, h.pendingSchedule, h.ended⟩

/-- The end of a search fails only when the report cannot be written. -/
private theorem unwritable_of_finish (explorer : Explorer σ φ) (directory : Directory)
    {error : ExplorationError}
    (herror : ((explorer.finish : StateM Directory _) directory).1 = .error error) :
    ∃ path, error = .unwritableReport path := by
  unfold Explorer.finish at herror
  cases hpath : explorer.config.reportPath with
  | none =>
    rw [hpath] at herror
    have hok : Except.ok explorer.summary = Except.error error := herror
    exact nomatch hok
  | some path =>
    rw [hpath] at herror
    refine ⟨path, ?_⟩
    simp only [SearchSummary.appendTo, bind, StateT.bind] at herror
    cases happended : (FileStore.append path (explorer.summary.text ++ "\n") :
        StateM Directory Bool) directory with
    | mk written later =>
      rw [happended] at herror
      cases written with
      | false => exact (Except.error.inj herror).symm
      | true =>
        have hok : Except.ok explorer.summary = Except.error error := herror
        exact nomatch hok

end Explorer

namespace Session

variable {σ φ : Type} [AccessFilter φ] {session : Session σ φ}

/-- The host is told that the search is finished only in answer to a question how to go on. -/
theorem finished_hear (session : Session σ φ) {callback : Callback σ}
    (hquiet : callback.asksToGoOn = false) :
    (session.hear callback).finished =
      if session.explorer.startsRound callback then false else session.finished := by
  cases callback with
  | choiceAdvanced | pathMatched => simp [Callback.asksToGoOn] at hquiet
  | searchFinished directory =>
    simp only [hear, Explorer.hear]
    cases ((session.explorer.finish : StateM Directory _) directory).1 <;> simp [Except.map]
  | _ => simp [hear, Explorer.hear]

/-- No call of an orderly host fails, except that a report may be unwritable, and the explorer can
go on after it. -/
theorem hear_poised (h : session.explorer.Poised session.finished) (callback : Callback σ)
    (hallowed : (session.finished && callback.asksToGoOn) = false) :
    (∀ error, (session.explorer.hear callback).2 = .error error →
        ∃ path, error = .unwritableReport path) ∧
      (session.hear callback).explorer.Poised (session.hear callback).finished := by
  cases hasks : callback.asksToGoOn with
  | false =>
    rw [finished_hear session hasks]
    cases callback with
    | choiceAdvanced | pathMatched => simp [Callback.asksToGoOn] at hasks
    | searchStarted | stateRestored => exact ⟨by simp [Explorer.hear], h⟩
    | pointRegistered point => exact ⟨by simp [Explorer.hear], h.pointRegistered point⟩
    | accessObserved active access =>
      exact ⟨by simp [Explorer.hear], h.accessObserved active access⟩
    | stateEntered state | stateLeft state => exact ⟨by simp [Explorer.hear], h.stateEntered state⟩
    | splitAdvanced => exact ⟨by simp [Explorer.hear], h.splitAdvanced⟩
    | searchFinished directory =>
      refine ⟨fun error herror => ?_, h⟩
      refine Explorer.unwritable_of_finish session.explorer directory ?_
      simp only [Explorer.hear] at herror
      cases hfinish : ((session.explorer.finish : StateM Directory _) directory).1 with
      | ok summary => simp [hfinish, Except.map] at herror
      | error cause => simpa [hfinish, Except.map] using herror
  | true =>
    have hgoes : session.finished = false := by simpa [hasks] using hallowed
    rw [hgoes] at h
    cases callback with
    | choiceAdvanced view point =>
      obtain ⟨flow, houtcome, hpoised⟩ := h.choiceAdvanced view point
      refine ⟨by simp [Explorer.hear, houtcome, Except.map], ?_⟩
      simpa [hear, Explorer.hear, houtcome, Explorer.startsRound, hgoes, Except.map] using hpoised
    | pathMatched view point =>
      obtain ⟨flow, houtcome, hpoised⟩ := h.pathMatched view point
      refine ⟨by simp [Explorer.hear, houtcome, Except.map], ?_⟩
      simpa [hear, Explorer.hear, houtcome, Explorer.startsRound, hgoes, Except.map] using hpoised
    | _ => simp [Callback.asksToGoOn] at hasks

/-- Whatever calls a host makes, in any order and with whatever states, points and offers, as long
as it asks how to go on only while the search is not finished: no call meets a place without a
transition or a state without a snapshot. -/
theorem orderly_host_meets_no_dangling_reference (config : ExploreConfig) (filter : φ)
    (callbacks : List (Callback σ))
    (horderly : (start config filter : Session σ φ).isOrderly callbacks = true) :
    ∀ answer ∈ (start config filter : Session σ φ).answers callbacks,
      (∀ place, answer ≠ .error (.unknownTransition place)) ∧
        ∀ state, answer ≠ .error (.missingSnapshot state) := by
  refine answers_induction (motive := fun session => session.explorer.Poised session.finished)
    (fun session callback h hallowed => ?_) (Explorer.poised_start config filter) horderly
  obtain ⟨hanswer, hnext⟩ := hear_poised h callback hallowed
  refine ⟨⟨fun place hplace => ?_, fun state hstate => ?_⟩, hnext⟩
  · obtain ⟨path, hpath⟩ := hanswer _ hplace
    simp at hpath
  · obtain ⟨path, hpath⟩ := hanswer _ hstate
    simp at hpath

/-- Two events write one field. The host ends the path after both, starts over at the backtrack
point and ends that path as well, which finishes the search; passing the split point twice starts a
new round. -/
def twoRounds : List (Callback Unit) :=
  let written : Access := ⟨.write, "light", ⟨0⟩⟩
  let point (number : Nat) : DecisionPoint := .start ⟨number⟩ [⟨0⟩, ⟨1⟩]
  [.searchStarted, .pointRegistered (point 7), .choiceAdvanced ⟨⟨1⟩, ()⟩ (point 7),
    .accessObserved (.event ⟨7⟩) (some written), .stateEntered ⟨2⟩,
    .choiceAdvanced ⟨⟨2⟩, ()⟩ (point 8), .accessObserved (.event ⟨8⟩) (some written),
    .stateEntered ⟨3⟩, .pathMatched ⟨⟨3⟩, ()⟩ (point 9), .pathMatched ⟨⟨1⟩, ()⟩ (point 9),
    .splitAdvanced, .splitAdvanced, .pointRegistered (point 7),
    .choiceAdvanced ⟨⟨1⟩, ()⟩ (point 7), .searchFinished .empty]

/-- In these calls the host is told to start over and then that the search is finished, and no
reference dangles. -/
theorem orderly_host_meets_no_dangling_reference_twoRounds :
    (start {} TrackAll.mk).isOrderly twoRounds = true ∧
      ∀ answer ∈ (start {} TrackAll.mk).answers twoRounds,
        (∀ place, answer ≠ .error (.unknownTransition place)) ∧
          ∀ state, answer ≠ .error (.missingSnapshot state) :=
  ⟨by decide +kernel, orderly_host_meets_no_dangling_reference {} TrackAll.mk twoRounds
    (by decide +kernel)⟩

end Session

end EventOrder
