import EventOrder.Proofs.Explorer.Observing
import EventOrder.Proofs.Explorer.Poised
import EventOrder.Proofs.Explorer.Steps
import EventOrder.Proofs.Race.Gathering

/-!
# What no host can upset

A host that goes on after the search was finished may lead the explorer to places at which nothing
was taken, and then a decision fails. This file says what is kept up all the same, in whatever order
the calls come: whatever the explorer refers to belongs to an execution that has begun, every state
in which a transition was taken has a snapshot, and the current execution holds a place for its
first decision. So moving on never fails.
-/

namespace EventOrder

namespace ExecutionLog

variable {log later : ExecutionLog} {id : ExecutionId} {place : TransitionRef}
  {transition : Transition}

/-- The execution of that name has made its first decision. -/
def HasBegun (log : ExecutionLog) (id : ExecutionId) : Prop :=
  ∃ transition, log.taken? ⟨id, 0⟩ = some transition

/-- The place whose conflict called for the execution of that name, if one did. -/
def origin? (log : ExecutionLog) (id : ExecutionId) : Option TransitionRef :=
  (log.get? id).bind (·.origin)

/-- An execution that no longer waits for its first decision has begun. -/
theorem hasBegun_of_get? {execution : Execution} (hget : log.get? id = some execution)
    (hholds : execution.Holds) (hgoes : execution.fresh = false) : log.HasBegun id := by
  unfold Execution.Holds at hholds
  have hbound : 0 < execution.trace.size := by omega
  refine ⟨execution.trace[0], ?_⟩
  rw [taken?_of_get? hget]
  simp [hgoes, hbound]

/-- An execution that has begun no longer waits for its first decision. -/
theorem HasBegun.fresh_eq_false (h : log.HasBegun id) {execution : Execution}
    (hget : log.get? id = some execution) : execution.fresh = false := by
  obtain ⟨transition, hfirst⟩ := h
  rw [taken?_of_get? hget] at hfirst
  cases hfresh : execution.fresh with
  | true => simp [hfresh] at hfirst
  | false => rfl

/-- What an execution that has begun holds was taken. -/
theorem HasBegun.taken?_eq (h : log.HasBegun place.execution) :
    log.taken? place = log.transition? place := by
  obtain ⟨transition, hfirst⟩ := id h
  obtain ⟨execution, hget, -⟩ := Option.bind_eq_some_iff.mp hfirst
  have hget : log.get? place.execution = some execution := hget
  simp [taken?, transition?, hget, h.fresh_eq_false hget]

/-- A change of one execution that keeps its origin keeps where the executions come from. -/
theorem origin?_modify (change : Execution → Execution)
    (horigin : ∀ execution, (change execution).origin = execution.origin)
    (log : ExecutionLog) (id other : ExecutionId) :
    (log.modify id change).origin? other = log.origin? other := by
  unfold origin?
  rw [get?_modify]
  split
  · cases log.get? other <;> simp [horigin]
  · rfl

/-- One more execution does not change where those come from that have begun. -/
theorem HasBegun.origin?_add (h : log.HasBegun id) (other : ExecutionId)
    (change : Execution → Execution) (execution : Execution) :
    ((log.modify other change).add execution).origin? id =
      (log.modify other change).origin? id := by
  obtain ⟨transition, hfirst⟩ := h
  obtain ⟨begun, hget, -⟩ := Option.bind_eq_some_iff.mp hfirst
  have hne : id ≠ (log.modify other change).next := by
    rintro rfl
    rw [Explorer.next_modify] at hget
    exact absurd (hget.symm.trans log.get?_next) (by simp)
  simp [origin?, get?_add, hne]

end ExecutionLog

namespace Explorer

variable {σ φ : Type} {explorer later : Explorer σ φ}

/-- What an explorer keeps up whatever its host does and in whatever order. -/
structure Steady (explorer : Explorer σ φ) : Prop where
  /-- The recorded predecessors belong to executions that have begun. -/
  rooted : explorer.knowledge.Rooted fun place =>
    explorer.knowledge.log.HasBegun place.execution
  /-- So do the recorded footprints. -/
  begun_of_footprint : ∀ place footprint,
    explorer.knowledge.log.footprint? place = some footprint →
      explorer.knowledge.log.HasBegun place.execution
  /-- Every state that a transition was taken in has a snapshot. -/
  snapshot_of_taken : ∀ place transition,
    explorer.knowledge.log.taken? place = some transition → transition.state ∈ explorer.snapshots
  /-- There is a current execution, which holds a place at least. -/
  current : ∃ execution,
    explorer.knowledge.log.get? explorer.current = some execution ∧ execution.Holds
  /-- It has begun once a decision was counted, unless it has ended. -/
  begun : explorer.ended = false → explorer.counter ≠ 0 →
    explorer.knowledge.log.HasBegun explorer.current
  /-- The executions in the history have begun. -/
  begun_of_history : ∀ start ∈ explorer.history, explorer.knowledge.log.HasBegun start.execution
  /-- No order is in force and nothing was taken before a decision point was opened. -/
  unseen : explorer.offersSeen = false → explorer.schedule.order = [] ∧
    ∀ place, explorer.knowledge.log.taken? place = none

/-- An explorer is steady before its first call. -/
theorem steady_start (config : ExploreConfig) (filter : φ) :
    (start config filter : Explorer σ φ).Steady where
  rooted state place hplace := by
    simp [Explorer.start, Knowledge.empty, Predecessors.of, Predecessors.empty] at hplace
  begun_of_footprint place footprint hfootprint := absurd hfootprint (by simp [footprint?_start])
  snapshot_of_taken place transition htaken := absurd htaken (by simp [taken?_start])
  current := ⟨_, rfl, Execution.holds_start none ⟨⟨0⟩, .split, none⟩⟩
  begun _ hcounter := absurd rfl hcounter
  begun_of_history start hstart := by simp [Explorer.start] at hstart
  unseen _ := ⟨rfl, taken?_start config filter⟩

/-- Before a decision point was opened no order is in force. -/
theorem Steady.unseen_order (h : explorer.Steady) (hunseen : explorer.offersSeen = false) :
    explorer.offersSeen = false ∧ explorer.schedule.order = [] :=
  ⟨hunseen, (h.unseen hunseen).1⟩

/-- An explorer stays steady when the same transitions were taken in the executions and its current
execution is one of them that holds a place. -/
theorem Steady.change (h : explorer.Steady)
    (htaken : ∀ place, later.knowledge.log.taken? place = explorer.knowledge.log.taken? place)
    (hfootprint : ∀ place footprint, later.knowledge.log.footprint? place = some footprint →
      explorer.knowledge.log.HasBegun place.execution)
    (hpredecessors : later.knowledge.predecessors = explorer.knowledge.predecessors)
    (hsnapshots : later.snapshots = explorer.snapshots)
    (hhistory : later.history = explorer.history)
    (hcurrent : ∃ execution,
      later.knowledge.log.get? later.current = some execution ∧ execution.Holds)
    (hbegun : later.ended = false → later.counter ≠ 0 →
      explorer.knowledge.log.HasBegun later.current)
    (hunseen : later.offersSeen = false → explorer.offersSeen = false ∧
      later.schedule.order = []) : later.Steady := by
  have hsame (id : ExecutionId) :
      later.knowledge.log.HasBegun id ↔ explorer.knowledge.log.HasBegun id := by
    simp only [ExecutionLog.HasBegun, htaken]
  refine ⟨fun state place hplace => ?_, fun place footprint hplace => ?_,
    fun place transition hplace => ?_, hcurrent, fun hended hcounter => ?_, fun start hstart => ?_,
    fun hnone => ⟨(hunseen hnone).2, fun place => ?_⟩⟩
  · rw [hpredecessors] at hplace
    exact (hsame _).mpr (h.rooted state place hplace)
  · exact (hsame _).mpr (hfootprint place footprint hplace)
  · rw [hsnapshots]
    exact h.snapshot_of_taken place transition (by rw [← htaken]; exact hplace)
  · exact (hsame _).mpr (hbegun hended hcounter)
  · exact (hsame _).mpr (h.begun_of_history start (hhistory ▸ hstart))
  · rw [htaken]
    exact (h.unseen (hunseen hnone).1).2 place

/-- An explorer stays steady while its executions stay as they are. -/
theorem Steady.congr (h : explorer.Steady)
    (hlog : later.knowledge.log = explorer.knowledge.log)
    (hpredecessors : later.knowledge.predecessors = explorer.knowledge.predecessors)
    (hsnapshots : later.snapshots = explorer.snapshots)
    (hcurrent : later.current = explorer.current) (hhistory : later.history = explorer.history)
    (hbegun : later.ended = false → later.counter ≠ 0 →
      explorer.knowledge.log.HasBegun explorer.current)
    (hunseen : later.offersSeen = false → explorer.offersSeen = false ∧
      later.schedule.order = []) : later.Steady :=
  h.change (fun _ => by rw [hlog]) (hlog ▸ h.begun_of_footprint) hpredecessors hsnapshots hhistory
    (by rw [hlog, hcurrent]; exact h.current) (hcurrent ▸ hbegun) hunseen

/-- What is gathered leaves the explorer steady. -/
theorem Steady.gathers (h : explorer.Steady) {stands : TransitionRef → Prop}
    {reference : List Event} {knowledge : Knowledge}
    (hgathers : explorer.knowledge.Gathers stands reference knowledge) :
    ({ explorer with knowledge } : Explorer σ φ).Steady :=
  h.congr hgathers.log_eq hgathers.predecessors_eq rfl rfl rfl h.begun h.unseen_order

/-- Once a decision point was opened, this is known, and it was the first one that settled whether
there is anything to reduce. -/
theorem pointRegistered_settles (explorer : Explorer σ φ) (point : DecisionPoint) :
    (explorer.pointRegistered point).1.offersSeen = true ∧
      (explorer.pointRegistered point).1.reducing =
        (explorer.reducing && (explorer.offersSeen || !point.offered.isEmpty)) := by
  have hadopted (explorer : Explorer σ φ) :
      (explorer.adoptOffer point.offered).offersSeen = explorer.offersSeen ∧
        (explorer.adoptOffer point.offered).reducing = explorer.reducing := by
    unfold adoptOffer
    split <;> exact ⟨rfl, rfl⟩
  unfold pointRegistered
  generalize hsettles : (if explorer.offersSeen then explorer else { explorer with
      offersSeen := true, reducing := explorer.reducing && !point.offered.isEmpty }) = settled
  have hsettled : settled.offersSeen = true ∧ settled.reducing =
      (explorer.reducing && (explorer.offersSeen || !point.offered.isEmpty)) := by
    rw [← hsettles]
    split
    · rename_i hseen
      exact ⟨hseen, by simp [hseen]⟩
    · rename_i hunseen
      exact ⟨rfl, by simp [hunseen]⟩
  have hthen := hsettled
  rw [← (hadopted settled).1, ← (hadopted settled).2] at hthen
  dsimp only
  split
  · exact hsettled
  · split
    · exact hsettled
    · split <;> exact hthen

/-- A decision point may be opened at any time. -/
theorem Steady.pointRegistered (h : explorer.Steady) (point : DecisionPoint) :
    (explorer.pointRegistered point).1.Steady := by
  obtain ⟨reducing, offersSeen, schedule, lastEvent, events, hregistered⟩ :=
    explorer.pointRegistered_same point
  have hseen := (explorer.pointRegistered_settles point).1
  rw [hregistered] at hseen ⊢
  refine h.congr rfl rfl rfl rfl rfl h.begun fun hunseen => ?_
  exact absurd (hseen.symm.trans hunseen) (by simp)

/-- A state may be entered at any time. -/
theorem Steady.stateEntered (h : explorer.Steady) (state : StateId) :
    (explorer.stateEntered state).Steady := by
  unfold Explorer.stateEntered
  split
  · exact h
  · dsimp only
    split
    · rename_i hmet
      simp only [Bool.and_eq_true, Bool.not_eq_true', decide_eq_true_eq] at hmet
      have hbegun := h.begun hmet.1.1.1 (by omega)
      refine ⟨fun other place hplace => ?_, h.begun_of_footprint, h.snapshot_of_taken, h.current,
        h.begun, h.begun_of_history, h.unseen⟩
      rcases Predecessors.mem_of_record.mp hplace with hold | ⟨-, rfl⟩
      · exact h.rooted other place hold
      · exact hbegun
    · exact h.congr rfl rfl rfl rfl rfl h.begun h.unseen_order

/-- An access may be observed at any time. -/
theorem Steady.accessObserved [AccessFilter φ] (h : explorer.Steady) (active : ActivePoint)
    (access : Option Access) : (explorer.accessObserved active access).Steady := by
  obtain ⟨filter, hsame | ⟨hended, hcounter, position, recorded, hrecorded⟩⟩ :=
    explorer.accessObserved_cases active access
  · rw [hsame]
    exact h.congr rfl rfl rfl rfl rfl h.begun h.unseen_order
  · rw [hrecorded]
    have hbegun := h.begun hended hcounter
    refine h.change (fun place => ?_) (fun place footprint hfootprint => ?_) rfl rfl rfl ?_
      (fun _ _ => hbegun) h.unseen_order
    · exact ExecutionLog.taken?_modify_of_same (·.recordAccess position recorded) (fun _ => rfl)
        (fun _ => rfl) _ _ place
    · by_cases hid : explorer.current = place.execution
      · exact hid ▸ hbegun
      · refine h.begun_of_footprint place footprint ?_
        simpa [modifyCurrent, ExecutionLog.footprint?, ExecutionLog.get?_modify, hid]
          using hfootprint
    · obtain ⟨execution, hget, hholds⟩ := h.current
      exact ⟨execution.recordAccess position recorded,
        by simp [modifyCurrent, ExecutionLog.get?_modify, hget], hholds⟩

/-- A new execution that waits for its first decision may take the place of the current one. -/
theorem Steady.beginExecution (h : explorer.Steady) (origin : Option TransitionRef)
    (state : StateId) (event : Event) (backlog : Backlog)
    (hlater : later.knowledge = { explorer.knowledge with
      log := (explorer.knowledge.log.modify explorer.current Execution.release).add
        (placeholder origin state event)
      backlog })
    (hcurrent : later.current = explorer.knowledge.log.next)
    (hsnapshots : later.snapshots = explorer.snapshots)
    (hhistory : later.history = explorer.history)
    (hidle : later.ended = true ∨ later.counter = 0)
    (hunseen : later.offersSeen = false → explorer.offersSeen = false ∧
      later.schedule.order = []) : later.Steady := by
  refine h.change (fun place => ?_) (fun place footprint hfootprint => ?_) (by rw [hlater])
    hsnapshots hhistory ⟨placeholder origin state event, ?_, Execution.holds_start _ _⟩ ?_ hunseen
  · rw [hlater]
    exact ExecutionLog.taken?_supersede rfl _ _ place
  · rw [hlater, ExecutionLog.footprint?_supersede rfl] at hfootprint
    exact h.begun_of_footprint place footprint hfootprint
  · simp [hlater, hcurrent, ExecutionLog.get?_add, next_modify]
  · intro hended hcounter
    rcases hidle with hover | hnone
    · simp [hover] at hended
    · exact absurd hnone hcounter

/-- A new round may start at any time. -/
theorem Steady.renewed (h : explorer.Steady) : explorer.renewed.Steady :=
  h.beginExecution none .split ⟨0⟩ explorer.knowledge.backlog rfl rfl rfl rfl (Or.inr rfl)
    fun hunseen => ⟨hunseen, rfl⟩

/-- Adopting a restart leaves the explorer steady. -/
theorem Steady.adoptPending (h : explorer.Steady)
    (hseen : explorer.pendingSchedule.isSome → explorer.offersSeen = true) :
    explorer.adoptPending.Steady := by
  unfold Explorer.adoptPending
  split
  · exact h
  · rename_i order horder
    have hseen := hseen (by simp [horder])
    exact h.congr rfl rfl rfl rfl rfl (fun _ hcounter => absurd rfl hcounter)
      fun hunseen => absurd (hseen.symm.trans hunseen) (by simp)

section Recording

variable {execution : Execution}

/-- The current execution once a decision is recorded. -/
theorem get?_recordedIn (hget : explorer.knowledge.log.get? explorer.current = some execution)
    (view : HostView σ) (point : PointId) (event : Event) :
    (explorer.recordedIn execution view point event).knowledge.log.get? explorer.current =
      some ((execution.take ⟨event, view.state, some point⟩).mapPoint point
        execution.decisions) := by
  simp [recordedIn, ExecutionLog.get?_modify, hget]

/-- The transitions taken once a decision is recorded. -/
theorem taken?_recordedIn (hget : explorer.knowledge.log.get? explorer.current = some execution)
    (hholds : execution.Holds) (view : HostView σ) (point : PointId) (event : Event)
    (place : TransitionRef) :
    (explorer.recordedIn execution view point event).knowledge.log.taken? place =
      if place = ⟨explorer.current, execution.decisions⟩ then
        some ⟨event, view.state, some point⟩
      else explorer.knowledge.log.taken? place := by
  change ((explorer.knowledge.log.modify _ _).modify _ _).taken? place = _
  rw [ExecutionLog.taken?_modify_of_same (·.mapPoint point execution.decisions) (fun _ => rfl)
      (fun _ => rfl),
    ExecutionLog.taken?_modify_take_of_holds hget hholds]

/-- Recording a decision takes no transition back. -/
theorem taken?_recordedIn_of_taken?
    (hget : explorer.knowledge.log.get? explorer.current = some execution)
    (hholds : execution.Holds) (view : HostView σ) (point : PointId) (event : Event)
    {place : TransitionRef} {transition : Transition}
    (hplace : explorer.knowledge.log.taken? place = some transition) :
    (explorer.recordedIn execution view point event).knowledge.log.taken? place =
      some transition := by
  rw [taken?_recordedIn hget hholds, if_neg ?_]
  · exact hplace
  · -- The place of the new transition held none that was taken.
    rintro rfl
    rw [ExecutionLog.taken?_of_get? hget] at hplace
    unfold Execution.decisions at hplace
    split at hplace
    · exact absurd hplace (by simp)
    · simp at hplace

/-- Recording a decision does not change where the executions come from. -/
theorem origin?_recordedIn (explorer : Explorer σ φ) (execution : Execution) (view : HostView σ)
    (point : PointId) (event : Event) (id : ExecutionId) :
    (explorer.recordedIn execution view point event).knowledge.log.origin? id =
      explorer.knowledge.log.origin? id := by
  change ((explorer.knowledge.log.modify _ _).modify _ _).origin? id = _
  rw [ExecutionLog.origin?_modify (·.mapPoint point execution.decisions) fun _ => rfl,
    ExecutionLog.origin?_modify _ fun execution => execution.origin_take _]

/-- A place that is recorded then as leading into a state is one of the current execution. -/
private theorem mem_predecessors_recordedIn {view : HostView σ} {point : PointId} {event : Event}
    {state : StateId} {place : TransitionRef}
    (h : place ∈
      (explorer.recordedIn execution view point event).knowledge.predecessors.of state) :
    place ∈ explorer.knowledge.predecessors.of state ∨ place.execution = explorer.current := by
  cases hfresh : execution.fresh with
  | true => exact Or.inl (by simpa [Explorer.recordedIn, hfresh] using h)
  | false =>
    cases hprevious : explorer.previousPlace? with
    | none => exact Or.inl (by simpa [Explorer.recordedIn, hfresh, hprevious] using h)
    | some previous =>
      simp only [Explorer.recordedIn, hfresh, hprevious, Bool.false_eq_true, if_false] at h
      rcases Predecessors.mem_of_record.mp h with hold | ⟨-, rfl⟩
      · exact Or.inl hold
      · unfold previousPlace? at hprevious
        split at hprevious
        · exact absurd hprevious (by simp)
        · exact Or.inr (congrArg TransitionRef.execution (Option.some.inj hprevious)).symm

/-- So is an execution that enters the history. -/
private theorem mem_history_recordedIn {view : HostView σ} {point : PointId} {event : Event}
    {start : ExecutionStart}
    (h : start ∈ (explorer.recordedIn execution view point event).history) :
    start ∈ explorer.history ∨ start.execution = explorer.current := by
  simp only [Explorer.recordedIn] at h
  split at h
  · rcases Array.mem_push.mp h with hold | rfl
    · exact Or.inl hold
    · exact Or.inr rfl
  · exact Or.inl h

/-- Recording a decision leaves the explorer steady, and its current execution has begun then. -/
theorem Steady.recordedIn (h : explorer.Steady) (hsome : explorer.schedule.order ≠ [])
    (hget : explorer.knowledge.log.get? explorer.current = some execution)
    (hholds : execution.Holds) (view : HostView σ) (point : PointId) (event : Event) :
    (explorer.recordedIn execution view point event).Steady ∧
      (explorer.recordedIn execution view point event).knowledge.log.HasBegun explorer.current := by
  have htaken := taken?_recordedIn hget hholds view point event
  have hthere := get?_recordedIn hget view point event
  have hkept : ((execution.take ⟨event, view.state, some point⟩).mapPoint point
      execution.decisions).Holds := hholds.take _
  have hcurrent := ExecutionLog.hasBegun_of_get? hthere hkept (execution.fresh_take _)
  have hstill (id : ExecutionId) (hbegun : explorer.knowledge.log.HasBegun id) :
      (explorer.recordedIn execution view point event).knowledge.log.HasBegun id := by
    obtain ⟨transition, hfirst⟩ := hbegun
    exact ⟨transition, taken?_recordedIn_of_taken? hget hholds view point event hfirst⟩
  refine ⟨⟨fun state place hplace => ?_, fun place footprint hplace => ?_,
    fun place transition hplace => ?_, ⟨_, hthere, hkept⟩, fun _ _ => hcurrent,
    fun start hstart => ?_, fun hunseen => absurd (h.unseen hunseen).1 hsome⟩, hcurrent⟩
  · rcases mem_predecessors_recordedIn hplace with hold | hnew
    · exact hstill _ (h.rooted state place hold)
    · exact hnew ▸ hcurrent
  · refine hstill _ (h.begun_of_footprint place footprint ?_)
    rw [← hplace]
    change _ = ((explorer.knowledge.log.modify _ _).modify _ _).footprint? place
    rw [ExecutionLog.footprint?_modify_of_same (·.mapPoint point execution.decisions) fun _ => rfl,
      ExecutionLog.footprint?_modify_of_same _ fun execution => execution.footprints_take _]
  · rw [htaken] at hplace
    change transition.state ∈ (explorer.noted view point event).snapshots
    rw [mem_snapshots_noted]
    split at hplace
    · rw [← Option.some.inj hplace]
      exact Or.inl rfl
    · exact Or.inr (h.snapshot_of_taken place transition hplace)
  · rcases mem_history_recordedIn hstart with hold | hnew
    · exact hstill _ (h.begun_of_history start hold)
    · exact hnew ▸ hcurrent

end Recording

/-- The places of executions that have begun. -/
def begunPlaces (explorer : Explorer σ φ) (place : TransitionRef) : Prop :=
  explorer.knowledge.log.HasBegun place.execution

/-- Propagating the accesses of the last event gathers from executions that have begun, even if it
fails. -/
theorem Steady.completePrevious_gathers (h : explorer.Steady) :
    ∃ knowledge, explorer.completePrevious.1 = { explorer with knowledge } ∧
      explorer.knowledge.Gathers explorer.begunPlaces explorer.schedule.order knowledge := by
  refine completePrevious_keeps explorer (.refl _ _ _) fun place _ => ?_
  refine Knowledge.Rooted.eventCompleted_gathers h.rooted ?_ _
  cases hfootprint : explorer.knowledge.log.footprint? place with
  | none => exact Or.inl rfl
  | some footprint => exact Or.inr (h.begun_of_footprint place footprint hfootprint)

/-- So does weighing the states just entered, once the current execution has begun. -/
theorem Steady.hasNothingNew_gathers (h : explorer.Steady)
    (hbegun : explorer.knowledge.log.HasBegun explorer.current) :
    ∃ knowledge, explorer.hasNothingNew.1 = { explorer with knowledge } ∧
      explorer.knowledge.Gathers explorer.begunPlaces explorer.schedule.order knowledge := by
  refine hasNothingNew_keeps explorer (.refl _ _ _)
    fun place hplace state _ knowledge hgathers => ?_
  have hstands : explorer.begunPlaces place := by
    unfold previousPlace? at hplace
    split at hplace
    · exact absurd hplace (by simp)
    · rw [← Option.some.inj hplace]
      exact hbegun
  exact hgathers.trans ((hgathers.rooted h.rooted).stateRevisited_gathers hstands state _)

/-- Announcing a restart leaves the explorer steady. -/
theorem Steady.announcing (h : explorer.Steady) (next : BacktrackPoint) (rest : Backlog) :
    (explorer.announcing next rest).Steady :=
  h.beginExecution (some next.conflict) next.state (next.first?.getD ⟨0⟩) rest rfl rfl rfl rfl
    (Or.inl rfl) h.unseen_order

end Explorer

end EventOrder
