import EventOrder.Explorer.Decision
import EventOrder.Explorer.Observation
import EventOrder.Proofs.Race.Propagation

/-!
# Explorers with an execution under way

An explorer whose execution is under way has made a decision for every transition of it, and what
it keeps is coherent: every transition was taken in a state with a snapshot. Recording one more
decision never fails, and this file says what it changes.
-/

namespace EventOrder.Explorer

variable {σ φ : Type} {explorer : Explorer σ φ} {events : List Event} {decisions : Nat}

/-- An execution of the events is under way, in which so many decisions were recorded. -/
structure Underway (explorer : Explorer σ φ) (events : List Event) (decisions : Nat) : Prop where
  /-- There are events to reorder. -/
  reducing : explorer.reducing = true
  /-- It was settled that there are. -/
  offersSeen : explorer.offersSeen = true
  /-- No restart waits to be adopted. -/
  pendingSchedule : explorer.pendingSchedule = none
  /-- The execution has not ended. -/
  ended : explorer.ended = false
  /-- The events are numbered up to this one. -/
  lastEvent : explorer.lastEvent = events.getLast?
  /-- The schedule is an order of the events. -/
  order : explorer.schedule.order.Perm events
  /-- There are events. -/
  nonempty : events ≠ []
  /-- The execution holds the decisions. -/
  made : ∃ execution, explorer.knowledge.log.get? explorer.current = some execution ∧
    execution.Made decisions
  /-- No later execution was started. -/
  latest : explorer.knowledge.log.next = ⟨explorer.current.number + 1⟩
  /-- What was gathered is coherent. -/
  coherent : explorer.knowledge.Coherent events
  /-- Every state that a transition was taken in has a snapshot. -/
  snapshot_of_taken : ∀ place transition,
    explorer.knowledge.log.taken? place = some transition →
      transition.state ∈ explorer.snapshots

/-- No transition was taken before the first call. -/
theorem taken?_start (config : ExploreConfig) (filter : φ) (place : TransitionRef) :
    (start config filter : Explorer σ φ).knowledge.log.taken? place = none := by
  have hfresh : (placeholder none .split ⟨0⟩).fresh = true := rfl
  exact ExecutionLog.taken?_add_of_fresh hfresh .empty place

/-- Nor was anything recorded. -/
theorem footprint?_start (config : ExploreConfig) (filter : φ) (place : TransitionRef) :
    (start config filter : Explorer σ φ).knowledge.log.footprint? place = none := by
  have hempty : (placeholder none .split ⟨0⟩).footprints = ∅ := rfl
  exact ExecutionLog.footprint?_add_of_empty hempty .empty place

/-- The explorer after a decision for an event was recorded. -/
def noted (explorer : Explorer σ φ) (view : HostView σ) (point : PointId) (event : Event) :
    Explorer σ φ :=
  { explorer with
    knowledge :=
      { explorer.knowledge with
        log :=
          (explorer.knowledge.log.modify explorer.current
            (·.take ⟨event, view.state, some point⟩)).modify explorer.current
            (·.mapPoint point explorer.counter)
        reached :=
          explorer.visits.recent.foldl
            (fun graph state => graph.record state ⟨explorer.current, explorer.counter⟩)
            explorer.knowledge.reached
        predecessors :=
          match explorer.previousPlace? with
          | none => explorer.knowledge.predecessors
          | some place => explorer.knowledge.predecessors.record view.state place }
    snapshots :=
      if explorer.snapshots.contains view.state then explorer.snapshots
      else explorer.snapshots.insert view.state view.snapshot
    history :=
      if explorer.counter = 0 then
        explorer.history.push ⟨explorer.current, view.state, explorer.schedule.order⟩
      else explorer.history }

/-- The explorer after a decision for an event was recorded in its current execution, whether or not
its count of the decisions there is right. -/
def recordedIn (explorer : Explorer σ φ) (execution : Execution) (view : HostView σ)
    (point : PointId) (event : Event) : Explorer σ φ :=
  { explorer with
    knowledge :=
      { explorer.knowledge with
        log :=
          (explorer.knowledge.log.modify explorer.current
            (·.take ⟨event, view.state, some point⟩)).modify explorer.current
            (·.mapPoint point execution.decisions)
        reached :=
          explorer.visits.recent.foldl
            (fun graph state => graph.record state ⟨explorer.current, execution.decisions⟩)
            explorer.knowledge.reached
        predecessors :=
          if execution.fresh then explorer.knowledge.predecessors
          else
            match explorer.previousPlace? with
            | none => explorer.knowledge.predecessors
            | some place => explorer.knowledge.predecessors.record view.state place }
    snapshots :=
      if explorer.snapshots.contains view.state then explorer.snapshots
      else explorer.snapshots.insert view.state view.snapshot
    history :=
      if execution.fresh then
        explorer.history.push ⟨explorer.current, view.state, explorer.schedule.order⟩
      else explorer.history }

/-- What the host is asked to do when a decision is recorded. -/
def capture (explorer : Explorer σ φ) (view : HostView σ) : List (HostRequest σ) :=
  if explorer.snapshots.contains view.state then [] else [.captured]

/-- There is always an event due. -/
theorem Underway.eventAt?_isSome (h : explorer.Underway events decisions) (counter : Nat) :
    ∃ event ∈ events, explorer.schedule.eventAt? counter = some event := by
  have hpositive : 0 < explorer.schedule.order.length := by
    rw [h.order.length_eq]
    exact List.length_pos_iff.mpr h.nonempty
  have hbound := Nat.mod_lt counter hpositive
  exact ⟨_, h.order.mem_iff.mp (List.getElem_mem hbound), List.getElem?_eq_getElem hbound⟩

/-- Every place of the execution up to the last decision was taken. -/
theorem Underway.taken_of_lt (h : explorer.Underway events decisions) {position : Nat}
    (hposition : position < decisions) :
    ∃ transition, explorer.knowledge.log.taken? ⟨explorer.current, position⟩ = some transition := by
  obtain ⟨execution, hget, hmade⟩ := h.made
  exact ExecutionLog.taken?_of_made hget hmade hposition

/-- No place of the execution beyond the last decision was taken. -/
theorem Underway.lt_of_taken? (h : explorer.Underway events decisions) {position : Nat}
    {transition : Transition}
    (htaken : explorer.knowledge.log.taken? ⟨explorer.current, position⟩ = some transition) :
    position < decisions := by
  obtain ⟨execution, hget, hmade⟩ := h.made
  exact ExecutionLog.lt_of_taken? hget hmade htaken

/-- So no place that was taken is the place of the next decision. -/
theorem Underway.ne_of_taken? (h : explorer.Underway events explorer.counter)
    {place : TransitionRef} {transition : Transition}
    (htaken : explorer.knowledge.log.taken? place = some transition) :
    place ≠ ⟨explorer.current, explorer.counter⟩ := by
  rintro rfl
  exact Nat.lt_irrefl _ (h.lt_of_taken? htaken)

/-- Nothing is recorded in the execution beyond the last decision. -/
theorem Underway.footprint?_eq_none (h : explorer.Underway events decisions) {position : Nat}
    (hposition : decisions ≤ position) :
    explorer.knowledge.log.footprint? ⟨explorer.current, position⟩ = none := by
  obtain ⟨execution, hget, hmade⟩ := h.made
  simp [ExecutionLog.footprint?, hget, hmade.blank position hposition]

/-- The place of the last decision was taken. -/
theorem taken_of_previousPlace? {execution : Execution}
    (hget : explorer.knowledge.log.get? explorer.current = some execution)
    (hmade : execution.Made decisions) (hcounter : explorer.counter ≤ decisions)
    {place : TransitionRef} (hplace : explorer.previousPlace? = some place) :
    ∃ transition, explorer.knowledge.log.taken? place = some transition := by
  unfold previousPlace? at hplace
  split at hplace
  · exact absurd hplace (by simp)
  · rw [← Option.some.inj hplace]
    exact ExecutionLog.taken?_of_made hget hmade (by omega)

/-- The place of the last decision of an execution under way was taken. -/
theorem Underway.taken_of_previousPlace? (h : explorer.Underway events decisions)
    (hcounter : explorer.counter ≤ decisions) {place : TransitionRef}
    (hplace : explorer.previousPlace? = some place) :
    ∃ transition, explorer.knowledge.log.taken? place = some transition := by
  obtain ⟨execution, hget, hmade⟩ := h.made
  exact Explorer.taken_of_previousPlace? hget hmade hcounter hplace

/-- Recording a decision takes the next place of the current execution and does not fail. -/
theorem recordDecision_of_holds {execution : Execution}
    (hget : explorer.knowledge.log.get? explorer.current = some execution)
    (hholds : execution.Holds) (view : HostView σ) (point : PointId) (event : Event) :
    ∃ recorded, explorer.recordDecision ⟨event, view.state, some point⟩ =
        (recorded, .ok ⟨explorer.current, execution.decisions⟩) ∧
      (recorded.notePlace point ⟨explorer.current, execution.decisions⟩).keepSnapshot view =
        (explorer.recordedIn execution view point event, explorer.capture view) := by
  unfold Execution.Holds at hholds
  cases hfresh : execution.fresh with
  | true =>
    have hnone : execution.decisions = 0 := by simp [Execution.decisions, hfresh]
    have hheld : execution.trace.isEmpty = false := by
      rw [Array.isEmpty_eq_false_iff, ← Array.size_pos_iff]
      omega
    have hlog : explorer.knowledge.log.modify explorer.current
          (·.settle.replace 0 ⟨event, view.state, some point⟩) =
        explorer.knowledge.log.modify explorer.current (·.take ⟨event, view.state, some point⟩) :=
      ExecutionLog.modify_congr hget _ _ (by simp [Execution.take, hfresh])
    simp only [recordDecision, hget, hfresh, hheld, if_true, Bool.false_eq_true, if_false, hnone]
    refine ⟨_, rfl, ?_⟩
    simp only [notePlace, keepSnapshot, modifyCurrent, hlog, recordedIn, capture, hfresh, hnone,
      if_true]
    split <;> rfl
  | false =>
    have hsize : execution.trace.size = execution.decisions := by
      simp [Execution.decisions, hfresh]
    have hlog : explorer.knowledge.log.modify explorer.current
          (·.push ⟨event, view.state, some point⟩) =
        explorer.knowledge.log.modify explorer.current (·.take ⟨event, view.state, some point⟩) :=
      ExecutionLog.modify_congr hget _ _ (by simp [Execution.take, hfresh])
    have hplace (change : Execution → Execution) :
        (explorer.modifyCurrent change).previousPlace? = explorer.previousPlace? := rfl
    simp only [recordDecision, hget, hfresh, Bool.false_eq_true, if_false, hsize, hplace]
    cases hprevious : explorer.previousPlace? with
    | none =>
      refine ⟨_, rfl, ?_⟩
      simp only [notePlace, keepSnapshot, modifyCurrent, hlog, recordedIn, capture, hprevious,
        hfresh, Bool.false_eq_true, if_false]
      split <;> rfl
    | some place =>
      refine ⟨_, rfl, ?_⟩
      simp only [notePlace, keepSnapshot, modifyCurrent, hlog, recordedIn, capture, hprevious,
        hfresh, Bool.false_eq_true, if_false]
      split <;> rfl

/-- Where the count of the decisions is right it tells whether the execution has begun. -/
theorem recordedIn_of_made {execution : Execution} (hmade : execution.Made explorer.counter)
    (view : HostView σ) (point : PointId) (event : Event) :
    explorer.recordedIn execution view point event = explorer.noted view point event := by
  have hfresh := hmade.fresh
  unfold recordedIn noted
  simp only [hmade.decisions_eq]
  by_cases hcounter : explorer.counter = 0
  · simp [hfresh, hcounter, previousPlace?]
  · simp [hfresh, hcounter]

/-- Recording a decision of an execution under way takes the place of that decision and does not
fail. -/
theorem recordDecision_eq {execution : Execution}
    (hget : explorer.knowledge.log.get? explorer.current = some execution)
    (hmade : execution.Made explorer.counter) (view : HostView σ) (point : PointId)
    (event : Event) :
    ∃ recorded, explorer.recordDecision ⟨event, view.state, some point⟩ =
        (recorded, .ok ⟨explorer.current, explorer.counter⟩) ∧
      (recorded.notePlace point ⟨explorer.current, explorer.counter⟩).keepSnapshot view =
        (explorer.noted view point event, explorer.capture view) := by
  rw [← recordedIn_of_made hmade, ← hmade.decisions_eq]
  exact recordDecision_of_holds hget hmade.holds view point event

/-- The execution under way once a decision is recorded. -/
theorem get?_noted {execution : Execution}
    (hget : explorer.knowledge.log.get? explorer.current = some execution) (view : HostView σ)
    (point : PointId) (event : Event) :
    (explorer.noted view point event).knowledge.log.get? explorer.current =
      some ((execution.take ⟨event, view.state, some point⟩).mapPoint point explorer.counter) := by
  simp [noted, ExecutionLog.get?_modify, hget]

/-- The transitions taken once a decision is recorded. -/
theorem taken?_noted {execution : Execution}
    (hget : explorer.knowledge.log.get? explorer.current = some execution)
    (hmade : execution.Made explorer.counter) (view : HostView σ) (point : PointId)
    (event : Event) (place : TransitionRef) :
    (explorer.noted view point event).knowledge.log.taken? place =
      if place = ⟨explorer.current, explorer.counter⟩ then some ⟨event, view.state, some point⟩
      else explorer.knowledge.log.taken? place := by
  change ((explorer.knowledge.log.modify _ _).modify _ _).taken? place = _
  rw [ExecutionLog.taken?_modify_of_same (·.mapPoint point explorer.counter) (fun _ => rfl)
      (fun _ => rfl),
    ExecutionLog.taken?_modify_take hget hmade]

/-- The transitions taken once a decision of an execution under way is recorded. -/
theorem Underway.taken?_noted (h : explorer.Underway events explorer.counter) (view : HostView σ)
    (point : PointId) (event : Event) (place : TransitionRef) :
    (explorer.noted view point event).knowledge.log.taken? place =
      if place = ⟨explorer.current, explorer.counter⟩ then some ⟨event, view.state, some point⟩
      else explorer.knowledge.log.taken? place := by
  obtain ⟨execution, hget, hmade⟩ := h.made
  exact Explorer.taken?_noted hget hmade view point event place

/-- Recording a decision undoes no transition. -/
theorem Underway.taken?_noted_of_taken? (h : explorer.Underway events explorer.counter)
    (view : HostView σ) (point : PointId) (event : Event) {place : TransitionRef}
    {transition : Transition}
    (htaken : explorer.knowledge.log.taken? place = some transition) :
    (explorer.noted view point event).knowledge.log.taken? place = some transition := by
  rw [h.taken?_noted, if_neg (h.ne_of_taken? htaken)]
  exact htaken

/-- Recording a decision records no access. -/
theorem footprint?_noted (explorer : Explorer σ φ) (view : HostView σ) (point : PointId)
    (event : Event) (place : TransitionRef) :
    (explorer.noted view point event).knowledge.log.footprint? place =
      explorer.knowledge.log.footprint? place := by
  change ((explorer.knowledge.log.modify _ _).modify _ _).footprint? place = _
  rw [ExecutionLog.footprint?_modify_of_same (·.mapPoint point explorer.counter) (fun _ => rfl),
    ExecutionLog.footprint?_modify_of_same _ fun execution => execution.footprints_take _]

/-- The predecessors once a decision is recorded: the place before it leads into its state. -/
theorem mem_predecessors_noted {view : HostView σ} {point : PointId} {event : Event}
    {state : StateId} {place : TransitionRef} :
    place ∈ (explorer.noted view point event).knowledge.predecessors.of state ↔
      place ∈ explorer.knowledge.predecessors.of state ∨
        state = view.state ∧ explorer.previousPlace? = some place := by
  simp only [noted]
  cases explorer.previousPlace? with
  | none => simp
  | some previous => simp [Predecessors.mem_of_record, eq_comm]

/-- The place first recorded as leading into a state stays the first. -/
theorem head?_predecessors_noted {view : HostView σ} {point : PointId} {event : Event}
    {state : StateId} {first : TransitionRef}
    (h : (explorer.knowledge.predecessors.of state).head? = some first) :
    ((explorer.noted view point event).knowledge.predecessors.of state).head? = some first := by
  simp only [noted]
  cases explorer.previousPlace? with
  | none => exact h
  | some previous => exact Predecessors.head?_of_record h

/-- The states with a snapshot once a decision is recorded. -/
theorem mem_snapshots_noted {view : HostView σ} {point : PointId} {event : Event}
    {state : StateId} :
    state ∈ (explorer.noted view point event).snapshots ↔
      state = view.state ∨ state ∈ explorer.snapshots := by
  simp only [noted]
  split
  · rename_i hkept
    constructor
    · exact Or.inr
    · rintro (rfl | hold)
      · exact Std.ExtTreeMap.contains_iff_mem.mp hkept
      · exact hold
  · simp [@eq_comm _ state]

/-- The executions in the history once a decision is recorded: the first decision of an execution
puts it there. -/
theorem mem_history_noted {view : HostView σ} {point : PointId} {event : Event}
    {start : ExecutionStart} :
    start ∈ (explorer.noted view point event).history ↔ start ∈ explorer.history ∨
      explorer.counter = 0 ∧
        start = ⟨explorer.current, view.state, explorer.schedule.order⟩ := by
  simp only [noted]
  split <;> simp [*]

/-- One more decision is recorded. -/
theorem Underway.noted (h : explorer.Underway events explorer.counter) (view : HostView σ)
    (point : PointId) {event : Event} (hevent : event ∈ events) :
    (explorer.noted view point event).Underway events (explorer.counter + 1) := by
  have hkept (place : TransitionRef)
      (htaken : ∃ transition, explorer.knowledge.log.taken? place = some transition) :
      ∃ transition, (explorer.noted view point event).knowledge.log.taken? place =
        some transition := by
    rw [h.taken?_noted]
    split
    · exact ⟨_, rfl⟩
    · exact htaken
  refine
    { reducing := h.reducing, offersSeen := h.offersSeen, pendingSchedule := h.pendingSchedule,
      ended := h.ended, lastEvent := h.lastEvent, order := h.order, nonempty := h.nonempty,
      made := ?_, latest := ?_, coherent := ⟨?_, ?_, h.coherent.event_of_summary⟩,
      snapshot_of_taken := ?_ }
  · obtain ⟨execution, hget, hmade⟩ := h.made
    exact ⟨_, get?_noted hget view point event, (hmade.take _).mapPoint point explorer.counter⟩
  · simpa [Explorer.noted, ExecutionLog.next, ExecutionLog.modify] using h.latest
  · intro state place hplace
    rcases mem_predecessors_noted.mp hplace with hold | ⟨-, hprevious⟩
    · exact hkept place (h.coherent.taken_of_predecessor state place hold)
    · exact hkept place (h.taken_of_previousPlace? (Nat.le_refl _) hprevious)
  · intro place transition htaken
    rw [h.taken?_noted] at htaken
    split at htaken
    · rw [← Option.some.inj htaken]
      exact hevent
    · exact h.coherent.event_of_taken place transition htaken
  · intro place transition htaken
    rw [h.taken?_noted] at htaken
    rw [mem_snapshots_noted]
    split at htaken
    · rw [← Option.some.inj htaken]
      exact Or.inl rfl
    · exact Or.inr (h.snapshot_of_taken place transition htaken)

/-- Learning goes on under the same execution. -/
theorem Underway.learn (h : explorer.Underway events decisions) {later : Knowledge}
    (hlearns : explorer.knowledge.Learns explorer.schedule.order later) :
    ({ explorer with knowledge := later } : Explorer σ φ).Underway events decisions := by
  have hreference : explorer.knowledge.Coherent explorer.schedule.order :=
    h.coherent.congr fun _ => h.order.mem_iff.symm
  refine
    { reducing := h.reducing, offersSeen := h.offersSeen, pendingSchedule := h.pendingSchedule,
      ended := h.ended, lastEvent := h.lastEvent, order := h.order, nonempty := h.nonempty,
      made := ?_, latest := ?_,
      coherent := (hlearns.coherent hreference).congr fun _ => h.order.mem_iff,
      snapshot_of_taken := ?_ }
  · simpa only [hlearns.log_eq] using h.made
  · simpa only [hlearns.log_eq] using h.latest
  · simpa only [hlearns.log_eq] using h.snapshot_of_taken

end EventOrder.Explorer
