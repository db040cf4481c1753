import EventOrder.Proofs.Search.Decision

/-!
# Progress of a reduced search

A reduced search starts with an execution under way, and every turn that does not end it leaves one
under way again. Executing an event may let more backtrack points wait, and a restart takes one of
them off the backlog.
-/

namespace EventOrder.Search

variable {search : Search} {point : DecisionPoint} {waiting taken : List BacktrackPoint}

/-- While an execution is under way no restart is announced. -/
theorem Underway.adopt_eq (h : search.Underway point waiting taken) : search.adopt = search := by
  simp [adopt, Explorer.adoptPending, h.explorer.pendingSchedule]

/-- A search with an execution under way is ready for its next turn. -/
theorem Underway.ready (h : search.Underway point waiting taken) :
    search.Ready point waiting taken :=
  ⟨by simp [h.explorer.pendingSchedule], h.adopt_eq.symm ▸ h⟩

/-- The explorer after the event due was executed. -/
theorem advanced_explorer (search : Search) (point : DecisionPoint) (due : Event)
    (hreducing : (search.weighed point).reducing = true) :
    ∃ filter log predecessors,
      (search.advanced point due).explorer =
        { (search.weighed point).proceeded search.machine.state due with
          filter
          knowledge := { (search.weighed point).knowledge with log, predecessors }
          visits :=
            ((search.weighed point).proceeded search.machine.state due).visits.enter
              (search.stepped due).state } ∧
      ∀ place, log.taken? place = (search.weighed point).knowledge.log.taken? place := by
  obtain ⟨predecessors, hentered⟩ :=
    (((search.weighed point).proceeded search.machine.state due).observed
      (search.accesses point.id due)).stateEntered_eq hreducing (search.stepped due).state
  exact ⟨_, _, predecessors, hentered, fun place => Explorer.taken?_observed _ _ place⟩

/-- Executing the due event lets only its own place lead into a state, the one that it leads to. -/
theorem Underway.lead_of_advanced (h : search.Underway point waiting taken)
    {due : Event} (hdue : due ∈ search.code.events)
    (hweighs : search.Weighs point due (search.weighed point)) {state : StateId}
    {place : TransitionRef}
    (hplace : place ∈ (search.advanced point due).explorer.knowledge.predecessors.of state) :
    place ∈ (search.weighed point).knowledge.predecessors.of state ∨
      state = (search.stepped due).state ∧
        place = ⟨search.explorer.current, search.explorer.counter⟩ := by
  rcases Explorer.mem_predecessors_stateEntered hplace with hold | ⟨hstate, -, hnew⟩
  · exact Or.inl hold
  · have hweighed := (h.weighed hdue hweighs).same
    refine Or.inr ⟨hstate, hnew.trans ?_⟩
    simp only [Explorer.observed, Explorer.proceeded, hweighed.1, hweighed.2.1,
      Nat.add_sub_cancel]

/-- Once the due event was recorded and learnt from, its decision is held with those before it. -/
private theorem Underway.weighed_of_recorded (h : search.Underway point waiting taken) {due : Event}
    (hdue : due ∈ search.code.events) (hrecorded : search.matchesState = false)
    (hweighs : search.Weighs point due (search.weighed point)) :
    (search.weighed point).Underway search.code.events (search.explorer.counter + 1) := by
  generalize search.weighed point = weighed at hweighs
  cases hweighs with
  | matched hmatches => exact absurd hmatches (by simp [hrecorded])
  | recorded _ hlearns =>
    exact (h.explorer.noted search.machine.view point.id hdue).learn hlearns

/-- Executing the event leaves the execution under way. -/
private theorem explorer_underway_advanced (hcounter : (search.weighed point).counter =
      search.explorer.counter)
    (hunderway : (search.weighed point).Underway search.code.events (search.explorer.counter + 1))
    (due : Event) :
    (search.advanced point due).explorer.Underway search.code.events
      (search.explorer.counter + 1) := by
  have hproceeded := hunderway.proceeded search.machine.state due
  have hpositive : 0 < ((search.weighed point).proceeded search.machine.state due).counter :=
    Nat.succ_pos _
  have hbound : ((search.weighed point).proceeded search.machine.state due).counter ≤
      search.explorer.counter + 1 := by
    simp only [Explorer.proceeded, hcounter]
    exact Nat.le_refl _
  exact (hproceeded.observed hpositive hbound _).stateEntered hbound _

/-- Executing an event settles the machine and closes no decision point. -/
private theorem settled_stepped (hmachine : search.machine.Numbered) (due : Event) :
    (search.stepped due).Settled ∧ (search.stepped due).closed = search.machine.closed ∧
      (search.stepped due).nextPoint = ⟨search.machine.nextPoint.number + 1⟩ := by
  have hsettled := hmachine.settled_moveTo
    (Instruction.effectOfAll (search.code.body due) search.machine.values)
  obtain ⟨hclosed, hnext, -⟩ := search.machine.moveTo_same
    (Instruction.effectOfAll (search.code.body due) search.machine.values)
  refine ⟨⟨⟨hsettled.inRange, hsettled.injective⟩, hsettled.here⟩, hclosed, ?_⟩
  simp only [stepped, Machine.openPoint, hnext]

/-- When it discovers a state, no snapshot was taken of that before. -/
private theorem Weighed.undiscovered {weighed : Explorer Values PatternFilter}
    (h : search.Weighed point waiting taken weighed) (hmachine : search.machine.Numbered)
    {due : Event} (hnew : (search.stepped due).isNew = true) :
    (search.stepped due).state ∉ weighed.snapshots := by
  intro hsnapshot
  have hold := (Machine.isNew_moveTo _ _).mp hnew
  obtain ⟨values, hkept⟩ := Option.isSome_iff_exists.mp
    (Std.ExtTreeMap.mem_iff_isSome_getElem?.mp hsnapshot)
  replace hkept := h.numbered_of_snapshot _ values hkept
  have hstate : (search.stepped due).state = ⟨search.machine.statesSeen + 1⟩ := by
    simp only [stepped, Machine.openPoint, Machine.moveTo_of_unnumbered hold]
  rw [hstate] at hkept
  have hbound := hmachine.inRange _ _ hkept
  simp only at hbound
  omega

/-- After the due event was executed the same execution is under way. -/
theorem Underway.advanced (h : search.Underway point waiting taken) {due next : Event}
    (hdue : due ∈ search.code.events) (hrecorded : search.matchesState = false)
    (hweighs : search.Weighs point due (search.weighed point)) :
    ∃ more, (search.advanced point due).Underway
      (((DecisionPoint.start search.machine.nextPoint search.code.events).offer
        search.explorer.schedule.order).preselect next) (waiting ++ more) taken := by
  have hweighed := h.weighed hdue hweighs
  have hunderway := h.weighed_of_recorded hdue hrecorded hweighs
  obtain ⟨more, hledger, hwaiting⟩ := hweighed.ledger
  obtain ⟨hcurrent, hcounter, hschedule, hvisits⟩ := hweighed.same
  obtain ⟨filter, log, predecessors, heq, htaken⟩ :=
    search.advanced_explorer point due hunderway.reducing
  have hmachine : (search.advanced point due).machine = search.stepped due := rfl
  obtain ⟨hsettled, hclosed, hnext⟩ := settled_stepped h.machine.toNumbered due
  refine ⟨more, ?_⟩
  refine
    { explorer := ?_, machine := hsettled, ledger := ?_, order_of_waiting := ?_,
      snapshot_of_waiting := ?_, numbered_of_snapshot := ?_, recent := ?_, undiscovered := ?_,
      lt_of_closed := ?_, lt_of_taken := ?_, lt_next := ?_, hasMore := rfl }
  · rw [show (search.advanced point due).explorer.counter = search.explorer.counter + 1 by
      rw [heq]; simp only [Explorer.proceeded, hcounter]]
    exact explorer_underway_advanced hcounter hunderway due
  · rw [heq]
    exact hledger
  · exact fun waits hwaits => (hwaiting waits hwaits).1
  · rw [heq]
    exact fun waits hwaits => (hwaiting waits hwaits).2
  · rw [heq]
    intro state values hsnapshot
    exact Machine.numbering_moveTo (hweighed.numbered_of_snapshot state values hsnapshot) _
  · rw [heq]
    simp [Explorer.proceeded, Visits.enter, Visits.forgetRecent, hmachine]
  · intro _ hnew
    rw [heq]
    exact hweighed.undiscovered h.machine.toNumbered hnew
  · intro id hid
    rw [hmachine, hclosed] at hid
    exact Nat.lt_trans (h.lt_of_closed id hid) h.lt_next
  · intro place transition hplace id hid
    rw [heq] at hplace
    exact Nat.lt_of_le_of_lt
      (hweighed.le_of_taken place transition ((htaken place).symm.trans hplace) id hid) h.lt_next
  · rw [hmachine, hnext]
    exact Nat.lt_succ_self _

/-- What executing the due event changes of the execution under way. -/
theorem Underway.advanced_same (h : search.Underway point waiting taken) {due : Event}
    (hdue : due ∈ search.code.events) (hrecorded : search.matchesState = false)
    (hweighs : search.Weighs point due (search.weighed point)) :
    (search.advanced point due).explorer.current = search.explorer.current ∧
      (search.advanced point due).explorer.counter = search.explorer.counter + 1 ∧
      (search.advanced point due).explorer.schedule = search.explorer.schedule ∧
      (search.advanced point due).explorer.visits =
        ((search.explorer.visits.take due).forgetRecent).enter (search.stepped due).state ∧
      ∀ place, (search.advanced point due).explorer.knowledge.log.taken? place =
        if place = ⟨search.explorer.current, search.explorer.counter⟩ then
          some ⟨due, search.machine.state, some point.id⟩
        else search.explorer.knowledge.log.taken? place := by
  have hweighed := h.weighed hdue hweighs
  obtain ⟨hcurrent, hcounter, hschedule, hvisits⟩ := hweighed.same
  obtain ⟨decisions, -, -, hunderway⟩ := hweighed.underway
  obtain ⟨filter, log, predecessors, heq, htaken⟩ :=
    search.advanced_explorer point due hunderway.reducing
  have hlog (place : TransitionRef) : (search.weighed point).knowledge.log.taken? place =
      if place = ⟨search.explorer.current, search.explorer.counter⟩ then
        some ⟨due, search.machine.state, some point.id⟩
      else search.explorer.knowledge.log.taken? place := by
    generalize search.weighed point = weighed at hweighs
    cases hweighs with
    | matched hmatches => exact absurd hmatches (by simp [hrecorded])
    | recorded _ hlearns =>
      simp only [hlearns.log_eq]
      exact h.explorer.taken?_noted search.machine.view point.id due place
  rw [heq]
  refine ⟨hcurrent, by simp only [Explorer.proceeded, hcounter], hschedule, ?_, fun place => ?_⟩
  · simp only [Explorer.proceeded, hvisits]
  · rw [← hlog place]
    exact htaken place

/-- The points of an execution that has made a decision are those that its transitions were taken
at. -/
private theorem exists_taken_of_mem_points {explorer : Explorer Values PatternFilter}
    {events : List Event} {decisions : Nat} (h : explorer.Underway events decisions)
    (hdecisions : 0 < decisions) {id : PointId}
    (hid : id ∈ ((explorer.knowledge.log.get? explorer.current).map (·.points)).getD []) :
    ∃ place transition, explorer.knowledge.log.taken? place = some transition ∧
      id ∈ transition.point := by
  obtain ⟨execution, hget, hmade⟩ := h.made
  simp only [hget, Option.map_some, Option.getD_some, Execution.points, List.mem_filterMap] at hid
  obtain ⟨transition, hmem, hpoint⟩ := hid
  obtain ⟨position, hposition⟩ := List.mem_iff_getElem?.mp hmem
  have hgoes : execution.fresh = false := by
    simp [hmade.fresh]
    omega
  refine ⟨⟨explorer.current, position⟩, transition, ?_, hpoint⟩
  rw [ExecutionLog.taken?_of_get? hget, hgoes]
  simpa using hposition

/-- After a restart an execution is under way from the backtrack point. -/
theorem Underway.restartedAt (h : search.Underway point waiting taken) {due : Event}
    (hdue : due ∈ search.code.events) {weighed : Explorer Values PatternFilter}
    (hweighs : search.Weighs point due weighed) {next : BacktrackPoint} {rest : Backlog}
    (hpop : weighed.knowledge.backlog.pop? = some (next, rest)) {values : Values}
    (hvalues : weighed.snapshots[next.state]? = some values) (isNew : Bool) :
    ∃ remaining, (search.restartedAt weighed next rest values isNew
        (((weighed.knowledge.log.get? search.explorer.current).map (·.points)).getD [])).Underway
      (.start search.machine.nextPoint next.schedule) remaining (taken ++ [next]) := by
  have hweighed := h.weighed hdue hweighs
  obtain ⟨decisions, -, hdecisions, hunderway⟩ := hweighed.underway
  obtain ⟨hschedule, -, remaining, hledger, hremaining⟩ := hweighed.pop? hpop
  have hlater (place : TransitionRef) (transition : Transition)
      (hplace : weighed.knowledge.log.taken? place = some transition) (id : PointId)
      (hid : id ∈ transition.point) : id.number < search.machine.nextPoint.number :=
    Nat.lt_of_le_of_lt (hweighed.le_of_taken place transition hplace id hid) h.lt_next
  refine ⟨remaining,
    { explorer := hunderway.restarted hschedule
      machine := ⟨⟨h.machine.inRange, h.machine.injective⟩,
        hweighed.numbered_of_snapshot _ _ hvalues⟩
      ledger := hledger
      order_of_waiting := fun waits hwaits => (hremaining waits hwaits).1
      snapshot_of_waiting := fun waits hwaits => (hremaining waits hwaits).2
      numbered_of_snapshot := hweighed.numbered_of_snapshot
      recent := rfl
      undiscovered := fun hcounter => absurd hcounter (Nat.lt_irrefl 0)
      lt_of_closed := ?_
      lt_of_taken := ?_
      lt_next := Nat.lt_succ_self _
      hasMore := ?_ }⟩
  · intro id hid
    rcases Std.ExtTreeSet.mem_insertMany_list.mp hid with hold | hnew
    · exact Nat.lt_trans (h.lt_of_closed id hold) h.lt_next
    · have hmem : id ∈ ((weighed.knowledge.log.get? weighed.current).map (·.points)).getD [] := by
        rw [hweighed.same.1]
        simpa using hnew
      obtain ⟨place, transition, htaken, hpoint⟩ :=
        exists_taken_of_mem_points hunderway hdecisions hmem
      exact hlater place transition htaken id hpoint
  · intro place transition hplace id hid
    exact hlater place transition ((weighed.taken?_restarted next rest place).symm.trans hplace)
      id hid
  · have hpositive : 0 < next.schedule.length := by
      rw [hschedule.length_eq]
      exact List.length_pos_iff.mpr h.explorer.nonempty
    simp [DecisionPoint.start, DecisionPoint.hasMore, hpositive]

/-- What a restart changes of the execution under way: a new one has taken nothing yet. -/
theorem Underway.restartedAt_same (h : search.Underway point waiting taken) {due : Event}
    (hdue : due ∈ search.code.events) {weighed : Explorer Values PatternFilter}
    (hweighs : search.Weighs point due weighed) (next : BacktrackPoint) (rest : Backlog)
    (values : Values) (isNew : Bool) (closed : List PointId) :
    let after := (search.restartedAt weighed next rest values isNew closed).explorer
    after.current = ⟨search.explorer.current.number + 1⟩ ∧ after.counter = 0 ∧
      after.visits = ⟨∅, weighed.visits.earlier.insertMany weighed.visits.counts.keys, ∅, ∅⟩ ∧
      ∀ position, after.knowledge.log.taken? ⟨after.current, position⟩ = none := by
  have hweighed := h.weighed hdue hweighs
  obtain ⟨decisions, -, -, hunderway⟩ := hweighed.underway
  refine ⟨?_, rfl, rfl, fun position => ?_⟩
  · rw [← hweighed.same.1]
    exact hunderway.latest
  · change (weighed.restarted next rest).knowledge.log.taken? ⟨weighed.knowledge.log.next, position⟩
      = none
    rw [weighed.taken?_restarted, ExecutionLog.taken?, ExecutionLog.get?_next]
    rfl

/-- The search of a program before its first decision point. -/
def initial (program : Program) (config : ExploreConfig) (limit : Nat) : Search where
  code := program.code
  limit := limit
  machine := .start program.code.initial
  explorer := .start config (.ofPatterns program.filter)
  executed := 0

/-- Just the well-formed programs are searched, from their initial values. -/
theorem start_eq_ok_iff {program : Program} {config : ExploreConfig} {limit : Nat} :
    start program config limit = .ok search ↔
      program.violation? = none ∧ search = initial program config limit := by
  unfold start
  split
  · rename_i hviolation
    simp [hviolation]
  · rename_i hviolation
    simp [hviolation, initial, eq_comm]

/-- A program with events has events to reorder. -/
theorem events_code (program : Program) :
    program.code.events = Event.firstEvents program.events.length := by
  simp [Code.events, Program.code]

/-- The explorer of a reduced search once its first decision point is registered. -/
def registered (program : Program) (config : ExploreConfig) : Explorer Values PatternFilter :=
  { Explorer.start config (.ofPatterns program.filter) with
    offersSeen := true
    reducing := true
    schedule := ⟨program.code.events⟩
    lastEvent := program.code.events.getLast?
    events := program.code.events.length }

/-- The first decision point of a reduced search offers the events in order. -/
theorem registerPoint_start {program : Program} {config : ExploreConfig} {limit : Nat}
    (hstart : start program config limit = .ok search) (hreduce : config.stateReduction = true)
    (hevents : program.events ≠ []) :
    search.registerPoint =
      ({ search with
          machine := { Machine.start program.code.initial with nextPoint := ⟨2⟩ }
          explorer := registered program config },
        (DecisionPoint.start ⟨1⟩ program.code.events).preselect ⟨0⟩) := by
  obtain ⟨-, rfl⟩ := start_eq_ok_iff.mp hstart
  obtain ⟨count, hcount⟩ : ∃ count, program.events.length = count + 1 :=
    Nat.exists_eq_succ_of_ne_zero (fun hzero => hevents (List.length_eq_zero_iff.mp hzero))
  have hcons : program.code.events =
      ⟨0⟩ :: ((List.range count).map Nat.succ).map Event.mk := by
    rw [events_code, hcount, Event.firstEvents, List.range_succ_eq_map]
    rfl
  have hnextPoint : (Machine.start program.code.initial).nextPoint = ⟨1⟩ := by
    unfold Machine.start Machine.settle
    split <;> rfl
  have hdue : (⟨program.code.events⟩ : Schedule).eventAt? 0 = some ⟨0⟩ := by
    simp [Schedule.eventAt?, hcons]
  simp only [initial, registerPoint, openPoint, Machine.openPoint, hnextPoint,
    Explorer.pointRegistered, Explorer.adoptOffer]
  simp [Explorer.start, hreduce, hcons, Schedule.empty, Schedule.isEmpty, registered,
    DecisionPoint.start, DecisionPoint.offer, Schedule.eventAt?, Schedule.last?, Schedule.size]

/-- No transition was taken before the first decision. -/
theorem taken?_registered (program : Program) (config : ExploreConfig) (place : TransitionRef) :
    (registered program config).knowledge.log.taken? place = none := by
  simp [registered, Explorer.taken?_start]

/-- Nor was anything recorded. -/
theorem footprint?_registered (program : Program) (config : ExploreConfig)
    (place : TransitionRef) :
    (registered program config).knowledge.log.footprint? place = none := by
  simp [registered, Explorer.footprint?_start]

/-- A reduced search of a well-formed program with events starts with an execution under way. -/
theorem underway_start {program : Program} {config : ExploreConfig} {limit : Nat}
    (hstart : start program config limit = .ok search) (hreduce : config.stateReduction = true)
    (hevents : program.events ≠ []) :
    search.registerPoint.1.Underway search.registerPoint.2 [] [] := by
  rw [registerPoint_start hstart hreduce hevents]
  obtain ⟨-, rfl⟩ := start_eq_ok_iff.mp hstart
  have hsettled := Machine.settled_start program.code.initial
  have hnonempty : program.code.events ≠ [] := by
    rw [events_code, Event.firstEvents]
    simpa using hevents
  have hclosed : (Machine.start program.code.initial).closed = ∅ := by
    unfold Machine.start Machine.settle
    split <;> rfl
  refine
    { explorer :=
        { reducing := rfl, offersSeen := rfl, pendingSchedule := rfl, ended := rfl,
          lastEvent := rfl, order := .refl _, nonempty := hnonempty,
          made := ⟨_, rfl, Execution.made_start _ _⟩, latest := rfl,
          coherent := ⟨?_, ?_, ?_⟩, snapshot_of_taken := ?_ }
      machine := ⟨⟨hsettled.inRange, hsettled.injective⟩, hsettled.here⟩
      ledger := Backlog.ledger_empty, order_of_waiting := by simp, snapshot_of_waiting := by simp,
      numbered_of_snapshot := ?_, recent := rfl,
      undiscovered := fun hcounter => absurd hcounter (Nat.lt_irrefl 0),
      lt_of_closed := ?_, lt_of_taken := ?_, lt_next := ?_, hasMore := rfl }
  · intro state place hplace
    exact absurd hplace (by simp [registered, Explorer.start, Knowledge.empty])
  · intro place transition htaken
    rw [taken?_registered] at htaken
    exact absurd htaken (by simp)
  · intro state event hentry
    exact absurd hentry (by
      simp [registered, Explorer.start, Knowledge.empty, Summary.get?, Summary.empty])
  · intro place transition htaken
    rw [taken?_registered] at htaken
    exact absurd htaken (by simp)
  · intro state values hvalues
    exact absurd hvalues (by simp [registered, Explorer.start])
  · intro id hid
    rw [hclosed] at hid
    exact absurd hid (by simp)
  · intro place transition htaken
    rw [taken?_registered] at htaken
    exact absurd htaken (by simp)
  · exact Nat.lt_succ_self 1

end EventOrder.Search
