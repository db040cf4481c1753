import EventOrder.Proofs.Search.Underway

/-!
# The decisions of a reduced search

This file says once what a decision of a reduced search can come to. The due event is executed, or
the execution is over, because its state was matched or it reached the greatest depth. When it is
over the search goes on from the next point of the backlog, and it is complete when there is none.
-/

namespace EventOrder.Search

/-- The explorer after it learnt from the due decision, which is recorded unless the host matched
the state by itself. -/
inductive Weighs (search : Search) (point : DecisionPoint) (due : Event) :
    Explorer Values PatternFilter → Prop
  | matched {later : Knowledge} (hmatches : search.matchesState = true)
      (hlearns : search.explorer.knowledge.Learns search.explorer.schedule.order later) :
      Weighs search point due { search.explorer with knowledge := later }
  | recorded {later : Knowledge} (hmatches : search.matchesState = false)
      (hlearns : (search.explorer.noted search.machine.view point.id due).knowledge.Learns
        search.explorer.schedule.order later) :
      Weighs search point due
        { search.explorer.noted search.machine.view point.id due with knowledge := later }

/-- Weighing a decision counts nothing. -/
theorem Weighs.same {search : Search} {point : DecisionPoint} {due : Event}
    {weighed : Explorer Values PatternFilter} (h : search.Weighs point due weighed) :
    weighed.config = search.explorer.config ∧
      weighed.statistics = search.explorer.statistics := by
  cases h <;> exact ⟨rfl, rfl⟩

/-- The execution is over: it is as deep as it may be, or it has come to a state from which there is
nothing new. -/
def IsOver (search : Search) : Prop :=
  search.explorer.atMaxDepth = true ∨
    0 < search.explorer.counter ∧ search.explorer.isMatched search.machine.state = true

/-- The search that starts over at a point taken off the backlog. -/
def restartedAt (search : Search) (weighed : Explorer Values PatternFilter) (next : BacktrackPoint)
    (rest : Backlog) (values : Values) (isNew : Bool) (closed : List PointId) : Search :=
  { search with
    machine :=
      { search.machine with
        values, isNew
        state := next.state
        closed := search.machine.closed.insertMany closed
        installed := none
        nextPoint := ⟨search.machine.nextPoint.number + 1⟩ }
    explorer := weighed.restarted next rest }

/-- What comes of a decision that is due for an event. -/
inductive Decides (search : Search) (point : DecisionPoint) (due : Event) :
    Turn DecisionPoint → Prop
  /-- The event is executed. -/
  | goes (hrecorded : search.matchesState = false)
      (hweighs : search.Weighs point due (search.weighed point))
      (hnew : 0 < search.explorer.counter → search.machine.isNew = false →
        search.explorer.coversAllEvents search.machine.state = false)
      (hdepth : search.explorer.atMaxDepth = false) (next : Event) :
      Decides search point due
        (.fired ⟨search.machine.state, due⟩ (search.advanced point due)
          (((DecisionPoint.start search.machine.nextPoint search.code.events).offer
            search.explorer.schedule.order).preselect next))
  /-- The search starts over at a backtrack point. -/
  | restarts (hweighs : search.Weighs point due (search.weighed point)) (hover : search.IsOver)
      {next : BacktrackPoint} {rest : Backlog}
      (hpop : (search.weighed point).knowledge.backlog.pop? = some (next, rest))
      {values : Values} (hvalues : (search.weighed point).snapshots[next.state]? = some values)
      {isNew : Bool} {moved : Search}
      (hadopt : moved.adopt = search.restartedAt (search.weighed point) next rest values isNew
        ((((search.weighed point).knowledge.log.get? search.explorer.current).map
          (·.points)).getD []))
      (hannounced : moved.explorer.ended = true) :
      Decides search point due
        (.moved moved (.start search.machine.nextPoint next.schedule))
  /-- No backtrack point is left. -/
  | completes (hweighs : search.Weighs point due (search.weighed point)) (hover : search.IsOver)
      (hpop : (search.weighed point).knowledge.backlog.pop? = none) {last : Search}
      (hknowledge : last.explorer.knowledge = (search.weighed point).knowledge)
      (hhistory : last.explorer.history = (search.weighed point).history)
      (hmachine : last.machine = search.machine) (hexecuted : last.executed = search.executed) :
      Decides search point due (.ended last (.ok .complete))

/-- Advancing a point keeps its name. -/
theorem id_advance (point : DecisionPoint) : point.advance.2.id = point.id := by
  unfold DecisionPoint.advance
  split
  · rfl
  · split
    · rfl
    · split <;> rfl

/-- The machine is left as it is when the explorer keeps a snapshot. -/
private theorem foldl_obey_capture (machine : Machine) (explorer : Explorer Values PatternFilter)
    (view : HostView Values) : (explorer.capture view).foldl Machine.obey machine = machine := by
  unfold Explorer.capture
  split <;> rfl

mutual

/-- Whatever is observed while an instruction runs stands under the point or inside it. -/
private theorem active_of_observations {declarations : List Variable} {point : PointId}
    {active : ActivePoint} (hactive : active = .event point ∨ active = .nested point)
    (instruction : Instruction) :
    ∀ observation ∈ instruction.observations declarations point active,
      observation.active = .event point ∨ observation.active = .nested point := by
  have hobserved (kind : AccessKind) (slot : Nat) :
      ∀ observation ∈ observed declarations active kind slot,
        observation.active = .event point ∨ observation.active = .nested point := by
    intro observation hmem
    unfold observed at hmem
    split at hmem
    · rw [List.mem_singleton.mp hmem]
      exact hactive
    · exact absurd hmem List.not_mem_nil
  intro observation hmem
  cases instruction with
  | read slot => exact hobserved .read slot observation hmem
  | write slot value => exact hobserved .write slot observation hmem
  | increment slot modulus =>
    rcases List.mem_append.mp hmem with hread | hwrite
    · exact hobserved .read slot observation hread
    · exact hobserved .write slot observation hwrite
  | copy source target =>
    rcases List.mem_append.mp hmem with hread | hwrite
    · exact hobserved .read source observation hread
    · exact hobserved .write target observation hwrite
  | nested body =>
    rcases List.mem_cons.mp hmem with rfl | hinside
    · exact Or.inr rfl
    · exact active_of_observationsOfAll (Or.inr rfl) body observation hinside

/-- Whatever is observed while instructions run stands under the point or inside it. -/
theorem active_of_observationsOfAll {declarations : List Variable} {point : PointId}
    {active : ActivePoint} (hactive : active = .event point ∨ active = .nested point)
    (instructions : List Instruction) :
    ∀ observation ∈ Instruction.observationsOfAll declarations point active instructions,
      observation.active = .event point ∨ observation.active = .nested point := by
  intro observation hmem
  cases instructions with
  | nil => exact absurd hmem List.not_mem_nil
  | cons instruction instructions =>
    rcases List.mem_append.mp hmem with hfirst | hrest
    · exact active_of_observations hactive instruction observation hfirst
    · refine active_of_observationsOfAll ?_ instructions observation hrest
      cases instruction with
      | nested body => exact Or.inl rfl
      | read | write | increment | copy => exact hactive

end

variable {search : Search} {point : DecisionPoint} {waiting taken : List BacktrackPoint}

/-- Executing the event of a decision that went ahead records its accesses, moves the machine to
where its body leads and opens the next point. -/
private theorem execute_registerPoint {explorer : Explorer Values PatternFilter}
    {events : List Event} (search : Search) (id : PointId) (event : Event)
    (hunderway : explorer.Underway events explorer.counter) (hcounter : 0 < explorer.counter)
    (hposition : ∃ execution, explorer.knowledge.log.get? explorer.current = some execution ∧
      execution.positionOf? id = some (explorer.counter - 1)) :
    ∃ next, (({ search with explorer } : Search).execute id event).registerPoint =
      ({ search with
          machine := search.stepped event
          explorer :=
            (explorer.observed (search.accesses id event)).stateEntered
              (search.stepped event).state
          executed := search.executed + 1 },
        ((DecisionPoint.start search.machine.nextPoint search.code.events).offer
          explorer.schedule.order).preselect next) := by
  have hobserved := Explorer.foldl_accessObserved hunderway.reducing hunderway.ended hcounter
    hposition (Instruction.observationsOfAll search.code.declarations id (.event id)
      (search.code.body event)) (active_of_observationsOfAll (Or.inl rfl) _)
  have hmachine := (search.machine.moveTo_same
    (Instruction.effectOfAll (search.code.body event) search.machine.values)).2.1
  have hentered := (hunderway.observed hcounter (Nat.le_refl _)
    (search.accesses id event)).stateEntered (Nat.le_refl _) (search.stepped event).state
  obtain ⟨next, -, -, hregistered⟩ := hentered.pointRegistered_eq
    (.start search.machine.nextPoint search.code.events)
  have hschedule : ((explorer.observed (search.accesses id event)).stateEntered
      (search.stepped event).state).schedule = explorer.schedule := by
    obtain ⟨predecessors, heq⟩ := (explorer.observed (search.accesses id event)).stateEntered_eq
      hunderway.reducing (search.stepped event).state
    rw [heq]
    rfl
  refine ⟨next, ?_⟩
  rw [hschedule] at hregistered
  simp only [execute, hobserved, registerPoint, openPoint, Machine.openPoint, hmachine]
  simp only [accesses, stepped, Machine.openPoint, hmachine] at hregistered ⊢
  rw [hregistered]

/-- A search that obeys a restart is moved to the backtrack point. -/
private theorem restart_accept (weighed : Explorer Values PatternFilter)
    (reply : Reply Values PatternFilter) {next : BacktrackPoint} {rest : Backlog} {values : Values}
    (hmachine : search.machine.Settled)
    (hvalues : search.machine.numbering[values]? = some next.state)
    (hrequests : reply.requests.foldl Machine.obey search.machine =
      (weighed.closeCurrent ++ Explorer.returning search.machine.view next.state values ++
        [HostRequest.offer next.schedule]).foldl Machine.obey search.machine)
    (hadopted : reply.explorer.adoptPending = weighed.restarted next rest) :
    ∃ isNew moved, (search.accept reply).restart =
        .moved moved (.start search.machine.nextPoint next.schedule) ∧
      moved.explorer = reply.explorer ∧
      moved.adopt = search.restartedAt weighed next rest values isNew
        (((weighed.knowledge.log.get? weighed.current).map (·.points)).getD []) := by
  obtain ⟨isNew, hobeyed⟩ := hmachine.foldl_restart hvalues
    (((weighed.knowledge.log.get? weighed.current).map (·.points)).getD []) next.schedule
  rw [Explorer.closeCurrent, hobeyed] at hrequests
  refine ⟨isNew, _, by simp only [restart, accept, hrequests, Machine.openInstalled,
    Machine.openPoint, Option.getD_some]; rfl, rfl, ?_⟩
  simp only [adopt, hadopted, restartedAt]

/-- The explorer takes the decision of an execution under way for the event that is due. -/
theorem consult_eq_decide (h : search.Underway point waiting taken) {due : Event}
    (hdue : search.explorer.schedule.eventAt? search.explorer.counter = some due)
    (hmatches : search.matchesState = false) :
    search.consult point =
      search.explorer.decide search.machine.view (point.advance.2.force due) due := by
  simp [consult, hmatches, Explorer.choiceAdvanced, h.explorer.reducing, Explorer.adoptPending,
    h.explorer.pendingSchedule, hdue]

/-- The snapshots kept once a decision is recorded make the states they were taken of. -/
private theorem numbered_of_noted (h : search.Underway point waiting taken) (id : PointId)
    (due : Event) (state : StateId) (values : Values)
    (hvalues : (search.explorer.noted search.machine.view id due).snapshots[state]? =
      some values) : search.machine.numbering[values]? = some state := by
  simp only [Explorer.noted] at hvalues
  split at hvalues
  · exact h.numbered_of_snapshot state values hvalues
  · rw [Std.ExtTreeMap.getElem?_insert] at hvalues
    split at hvalues
    · rename_i hstate
      rw [Std.compare_eq_iff_eq] at hstate
      rw [← hstate, ← Option.some.inj hvalues]
      exact h.machine.here
    · exact h.numbered_of_snapshot state values hvalues

/-- What weighing a decision leaves of the explorer: the same execution is under way, and the
backlog has only grown. -/
structure Weighed (search : Search) (point : DecisionPoint) (waiting taken : List BacktrackPoint)
    (weighed : Explorer Values PatternFilter) : Prop where
  /-- The same execution is under way. -/
  underway : ∃ decisions, search.explorer.counter ≤ decisions ∧ 0 < decisions ∧
    weighed.Underway search.code.events decisions
  /-- What the decision does not change. -/
  same : weighed.current = search.explorer.current ∧
    weighed.counter = search.explorer.counter ∧ weighed.schedule = search.explorer.schedule ∧
      weighed.visits = search.explorer.visits
  /-- Each execution enters the history with its first decision. -/
  history : weighed.history =
    if search.explorer.counter = 0 then
      search.explorer.history.push ⟨search.explorer.current, search.machine.state,
        search.explorer.schedule.order⟩
    else search.explorer.history
  /-- Points were added to the backlog only. -/
  ledger : ∃ more, weighed.knowledge.backlog.Ledger (waiting ++ more) taken ∧
    ∀ waits ∈ waiting ++ more, waits.schedule.Perm search.code.events ∧
      waits.state ∈ weighed.snapshots
  /-- Every snapshot makes the state it was taken of. -/
  numbered_of_snapshot : ∀ (state : StateId) (values : Values),
    weighed.snapshots[state]? = some values → search.machine.numbering[values]? = some state
  /-- No decision was made under a later point. -/
  le_of_taken : ∀ place transition, weighed.knowledge.log.taken? place = some transition →
    ∀ id ∈ transition.point, id.number ≤ point.id.number

/-- What learning does to the backlog of an execution under way. -/
private theorem ledger_of_learns {explorer : Explorer Values PatternFilter} {events : List Event}
    {decisions : Nat} (hunderway : explorer.Underway events decisions) (hevents : events.Nodup)
    (hledger : explorer.knowledge.backlog.Ledger waiting taken)
    (hwaiting : ∀ waits ∈ waiting, waits.schedule.Perm events ∧ waits.state ∈ explorer.snapshots)
    {later : Knowledge} (hlearns : explorer.knowledge.Learns explorer.schedule.order later) :
    ∃ more, later.backlog.Ledger (waiting ++ more) taken ∧
      ∀ waits ∈ waiting ++ more, waits.schedule.Perm events ∧
        waits.state ∈ explorer.snapshots := by
  obtain ⟨more, hmore, hadmitted⟩ := hlearns.ledger hledger
  refine ⟨more, hmore, fun waits hwaits => ?_⟩
  rcases List.mem_append.mp hwaits with hold | hnew
  · exact hwaiting waits hold
  · obtain ⟨transition, htaken, event, hevent, heq⟩ := hadmitted waits hnew
    have horder : explorer.schedule.order.Nodup := hunderway.order.nodup_iff.mpr hevents
    rw [heq]
    exact ⟨(BacktrackPoint.perm_schedule_reorder horder hevent).trans hunderway.order,
      hunderway.snapshot_of_taken _ transition htaken⟩

/-- The events of a program are different. -/
theorem nodup_events (code : Code) : code.events.Nodup := by
  refine List.Nodup.map (fun first second heq => ?_) List.nodup_range
  exact congrArg Event.number heq

/-- Weighing keeps the execution under way, whether the host matched the state or not. -/
theorem Underway.weighed (h : search.Underway point waiting taken) {due : Event}
    (hdue : due ∈ search.code.events) {weighed : Explorer Values PatternFilter}
    (hweighs : search.Weighs point due weighed) :
    search.Weighed point waiting taken weighed := by
  have hevents := nodup_events search.code
  cases hweighs with
  | matched hmatches hlearns =>
    have hcounter : search.explorer.counter ≠ 0 := by
      intro hzero
      simp [matchesState, hzero] at hmatches
    refine ⟨⟨_, Nat.le_refl _, Nat.pos_of_ne_zero hcounter, h.explorer.learn hlearns⟩,
      ⟨rfl, rfl, rfl, rfl⟩, ?_, ?_, h.numbered_of_snapshot, ?_⟩
    · rw [if_neg hcounter]
    · exact ledger_of_learns h.explorer hevents h.ledger
        (fun waits hwaits => ⟨h.order_of_waiting waits hwaits, h.snapshot_of_waiting waits hwaits⟩)
        hlearns
    · intro place transition htaken id hid
      simp only [hlearns.log_eq] at htaken
      exact Nat.le_of_lt (h.lt_of_taken place transition htaken id hid)
  | recorded hmatches hlearns =>
    have hnoted := h.explorer.noted search.machine.view point.id hdue
    refine ⟨⟨_, Nat.le_succ _, Nat.succ_pos _, hnoted.learn hlearns⟩, ⟨rfl, rfl, rfl, rfl⟩, rfl, ?_,
      numbered_of_noted h point.id due, ?_⟩
    · refine ledger_of_learns hnoted hevents h.ledger (fun waits hwaits => ?_) hlearns
      exact ⟨h.order_of_waiting waits hwaits,
        Explorer.mem_snapshots_noted.mpr (Or.inr (h.snapshot_of_waiting waits hwaits))⟩
    · intro place transition htaken id hid
      simp only [hlearns.log_eq] at htaken
      rw [h.explorer.taken?_noted] at htaken
      split at htaken
      · rw [← Option.some.inj htaken] at hid
        exact Nat.le_of_eq (congrArg PointId.number (Option.mem_some.mp hid)).symm
      · exact Nat.le_of_lt (h.lt_of_taken place transition htaken id hid)

/-- A point taken off the backlog can be returned to and has an order of all events, and so do the
points that still wait. -/
theorem Weighed.pop? {weighed : Explorer Values PatternFilter}
    (h : search.Weighed point waiting taken weighed) {next : BacktrackPoint} {rest : Backlog}
    (hpop : weighed.knowledge.backlog.pop? = some (next, rest)) :
    next.schedule.Perm search.code.events ∧
      (∃ values, weighed.snapshots[next.state]? = some values ∧
        search.machine.numbering[values]? = some next.state) ∧
      ∃ remaining, rest.Ledger remaining (taken ++ [next]) ∧
        ∀ waits ∈ remaining, waits.schedule.Perm search.code.events ∧
          waits.state ∈ weighed.snapshots := by
  obtain ⟨more, hledger, hwaiting⟩ := h.ledger
  obtain ⟨before, after, hsplit, hrest, -⟩ := hledger.pop? hpop
  obtain ⟨hschedule, hsnapshot⟩ := hwaiting next (by simp [hsplit])
  have hvalues := Std.ExtTreeMap.getElem?_eq_some_getElem hsnapshot
  refine ⟨hschedule, ⟨_, hvalues, h.numbered_of_snapshot _ _ hvalues⟩, before ++ after, hrest,
    fun waits hwaits => hwaiting waits ?_⟩
  rw [hsplit]
  rcases List.mem_append.mp hwaits with hbefore | hafter
  · exact List.mem_append_left _ hbefore
  · exact List.mem_append_right _ (List.mem_cons_of_mem _ hafter)

/-- A state is matched by the host only when every event was taken since it was entered. -/
private theorem isOver_of_matchesState (hmatches : search.matchesState = true) :
    search.IsOver := by
  simp only [matchesState, Bool.and_eq_true, decide_eq_true_eq] at hmatches
  exact Or.inr ⟨hmatches.1.1.1.1, by simp [Explorer.isMatched, hmatches.2]⟩

/-- What the explorer replies once an execution is over: it finishes when no backtrack point waits,
and otherwise it starts over at the next one. -/
structure MovesOn (search : Search) (weighed : Explorer Values PatternFilter)
    (reply : Reply Values PatternFilter) : Prop where
  /-- Without a backtrack point the search is finished, and the machine stays as it is. -/
  finishes : weighed.knowledge.backlog.pop? = none →
    reply.outcome = .ok .finished ∧
      reply.requests.foldl Machine.obey search.machine = search.machine ∧
        reply.explorer.knowledge = weighed.knowledge ∧ reply.explorer.history = weighed.history
  /-- The machine is brought to the state of the next one, and then the restart can be adopted. -/
  restarts : ∀ next rest values, weighed.knowledge.backlog.pop? = some (next, rest) →
    weighed.snapshots[next.state]? = some values →
      reply.outcome = .ok .restarted ∧
        reply.requests.foldl Machine.obey search.machine =
          (weighed.closeCurrent ++ Explorer.returning search.machine.view next.state values ++
            [HostRequest.offer next.schedule]).foldl Machine.obey search.machine ∧
          reply.explorer.ended = true ∧
            reply.explorer.adoptPending = weighed.restarted next rest

/-- When the explorer moves on, the search is complete or starts over. -/
private theorem decide_of_movesOn (h : search.Underway point waiting taken)
    (hlimit : search.atLimit = false) {due : Event} (hdue : due ∈ search.code.events)
    (hweighs : search.Weighs point due (search.weighed point)) (hover : search.IsOver)
    (hmoves : search.MovesOn (search.weighed point) (search.consult point)) :
    search.Decides point due (search.decide point) := by
  have hweighed := h.weighed hdue hweighs
  have hopen := h.isOpen
  cases hpop : (search.weighed point).knowledge.backlog.pop? with
  | none =>
    obtain ⟨houtcome, hmachine, hknowledge, hhistory⟩ := hmoves.finishes hpop
    simp only [decide, hopen, hlimit, houtcome]
    exact .completes hweighs hover hpop hknowledge hhistory hmachine rfl
  | some popped =>
    obtain ⟨next, rest⟩ := popped
    obtain ⟨-, ⟨values, hvalues, hnumbered⟩, -⟩ := hweighed.pop? hpop
    obtain ⟨houtcome, hrequests, hended, hadopted⟩ := hmoves.restarts next rest values hpop hvalues
    obtain ⟨isNew, moved, hmoved, hsame, hadopt⟩ := restart_accept (search.weighed point)
      (search.consult point) h.machine hnumbered hrequests hadopted
    rw [hweighed.same.1] at hadopt
    simp only [decide, hopen, hlimit, houtcome, hmoved]
    exact .restarts hweighs hover hpop hvalues hadopt (hsame ▸ hended)

/-- When the host matches its state, the search moves on or is complete. -/
private theorem decide_of_matchesState (h : search.Underway point waiting taken)
    (hlimit : search.atLimit = false) {due : Event} (hdue : due ∈ search.code.events)
    (hmatches : search.matchesState = true) : search.Decides point due (search.decide point) := by
  obtain ⟨later, created, hcompleted, hlearns⟩ := h.explorer.completePrevious_eq (Nat.le_refl _)
  have heq : search.weighed point = { search.explorer with knowledge := later } := by
    simp only [Search.weighed, hmatches, if_true, hcompleted]
  have hweighs : search.Weighs point due (search.weighed point) :=
    heq ▸ .matched hmatches hlearns
  have hconsult : search.consult point =
      search.explorer.pathMatched search.machine.view point := by
    simp [consult, hmatches]
  rw [← heq] at hcompleted
  refine decide_of_movesOn h hlimit hdue hweighs (isOver_of_matchesState hmatches)
    ⟨fun hpop => ?_, fun next rest values hpop hvalues => ?_⟩
  · have hreply : search.consult point =
        ⟨(search.weighed point).endExecution.countDecision, point.close, [], .ok .finished⟩ := by
      simp [hconsult, Explorer.pathMatched, h.explorer.reducing, hcompleted,
        Explorer.outcome_moveOn_of_pop?_eq_none hpop]
    rw [hreply]
    exact ⟨rfl, rfl, rfl, rfl⟩
  · have hrestarts := Explorer.pathMatched_restarts h.explorer.reducing hcompleted hpop hvalues
      search.machine.view point
    rw [← hconsult] at hrestarts
    exact ⟨hrestarts.outcome, by rw [hrestarts.requests], hrestarts.ended, hrestarts.adopted⟩

/-- When the explorer goes on with a decision, no state was covered that the host met before. -/
private theorem not_covers (h : search.Underway point waiting taken)
    (hmatches : search.matchesState = false) {ended : Bool}
    (hmatched : 0 < search.explorer.counter → ∀ state ∈ search.explorer.visits.recent,
      search.explorer.knowledge.summary.containsState state = true →
        search.explorer.isMatched state = true → ended = true) (hended : ended = false)
    (hcounter : 0 < search.explorer.counter) (hmet : search.machine.isNew = false) :
    search.explorer.coversAllEvents search.machine.state = false := by
  rw [← Bool.not_eq_true]
  intro hcovers
  have hknown : search.explorer.knowledge.summary.containsState search.machine.state = true := by
    simpa [matchesState, hcounter, h.explorer.ended, hmet, hcovers] using hmatches
  have hrecent : search.machine.state ∈ search.explorer.visits.recent := by
    rw [h.recent, if_neg (by omega)]
    simp
  have hends := hmatched hcounter _ hrecent hknown (by simp [Explorer.isMatched, hcovers])
  rw [hended] at hends
  exact absurd hends (by simp)

/-- Once a decision went ahead, its event is executed and the next decision point is opened. -/
private theorem execute_after_proceeded (h : search.Underway point waiting taken) {due : Event}
    (hdue : due ∈ search.code.events) {later : Knowledge}
    (heq : search.weighed point =
      { search.explorer.noted search.machine.view point.id due with knowledge := later })
    (hlearns : (search.explorer.noted search.machine.view point.id due).knowledge.Learns
      search.explorer.schedule.order later) :
    ∃ next, (({ search with
          explorer := (search.weighed point).proceeded search.machine.state due } :
            Search).execute point.id due).registerPoint =
      (search.advanced point due,
        ((DecisionPoint.start search.machine.nextPoint search.code.events).offer
          search.explorer.schedule.order).preselect next) := by
  have hunderway := ((h.explorer.noted search.machine.view point.id hdue).learn
    hlearns).proceeded search.machine.state due
  have hposition : ∃ execution, later.log.get? search.explorer.current = some execution ∧
      execution.positionOf? point.id = some search.explorer.counter := by
    obtain ⟨execution, hget, hmade⟩ := h.explorer.made
    rw [hlearns.log_eq, Explorer.get?_noted hget]
    exact ⟨_, rfl, (hmade.take _).positionOf?_mapPoint _ _⟩
  have hexecuted := execute_registerPoint search point.id due hunderway (Nat.succ_pos _)
    hposition
  rw [← heq] at hexecuted
  unfold advanced
  rw [heq] at hexecuted ⊢
  exact hexecuted

/-- When the host leaves the decision to the explorer, the event that is due is executed unless the
execution is over. -/
private theorem decide_of_not_matchesState (h : search.Underway point waiting taken)
    (hlimit : search.atLimit = false) {due : Event} (hmem : due ∈ search.code.events)
    (hdue : search.explorer.schedule.eventAt? search.explorer.counter = some due)
    (hmatches : search.matchesState = false) : search.Decides point due (search.decide point) := by
  have hid : (point.advance.2.force due).id = point.id := id_advance point
  obtain ⟨later, ended, heq, hlearns, hdecide, honly, hmatched⟩ :=
    h.explorer.decide_eq search.machine.view (point.advance.2.force due) hmem
  rw [hid] at heq hlearns hdecide
  have hsearch : search.weighed point =
      (search.explorer.noted search.machine.view point.id due).weighed := by
    simp [Search.weighed, hmatches, hdue]
  rw [← hsearch] at heq hdecide
  have hweighs : search.Weighs point due (search.weighed point) :=
    heq ▸ .recorded hmatches hlearns
  rw [← consult_eq_decide h hdue hmatches] at hdecide
  have hcapture := foldl_obey_capture search.machine search.explorer search.machine.view
  cases hends : (ended || search.explorer.atMaxDepth) with
  | false =>
    rw [hends, Explorer.conclude_false, List.append_nil] at hdecide
    simp only [Bool.or_eq_false_iff] at hends
    obtain ⟨next, hexecuted⟩ := execute_after_proceeded h hmem heq hlearns
    have hfired : search.decide point =
        .fired ⟨search.machine.state, due⟩ (search.advanced point due)
          (((DecisionPoint.start search.machine.nextPoint search.code.events).offer
            search.explorer.schedule.order).preselect next) := by
      simp only [decide, h.isOpen, hlimit, hdecide, accept, hcapture, fire, DecisionPoint.force,
        id_advance, Bool.false_eq_true, if_false]
      rw [show search.machine.view.state = search.machine.state from rfl, hexecuted]
    rw [hfired]
    exact .goes hmatches hweighs (not_covers h hmatches hmatched hends.1) hends.2 next
  | true =>
    rw [hends] at hdecide
    have hover : search.IsOver := by
      rcases Bool.or_eq_true _ _ ▸ hends with hended | hdepth
      · obtain ⟨hcounter, state, hstate, hmatch⟩ := honly hended
        rw [h.recent, if_neg (by omega)] at hstate
        have hsame : search.machine.state = state := by simpa using hstate
        exact Or.inr ⟨hcounter, hsame ▸ hmatch⟩
      · exact Or.inl hdepth
    refine decide_of_movesOn h hlimit hmem hweighs hover
      ⟨fun hpop => ?_, fun next rest values hpop hvalues => ?_⟩
    · simp only [Explorer.conclude, if_true, Explorer.outcome_moveOn_of_pop?_eq_none hpop,
        List.append_nil] at hdecide
      rw [hdecide]
      exact ⟨rfl, hcapture, rfl, rfl⟩
    · have hrestarts := Explorer.conclude_restarts hpop hvalues search.machine.view
        (point.advance.2.force due) due
      rw [hdecide]
      exact ⟨hrestarts.outcome, by rw [List.foldl_append, hcapture, hrestarts.requests],
        hrestarts.ended, hrestarts.adopted⟩

/-- A decision that goes ahead puts the event that is due in force. -/
theorem Underway.current_of_proceed (h : search.Underway point waiting taken)
    (houtcome : (search.consult point).outcome = .ok .proceed) :
    ∃ due ∈ search.code.events, (search.consult point).point.current = some due := by
  obtain ⟨due, hmem, hdue⟩ := h.explorer.eventAt?_isSome search.explorer.counter
  refine ⟨due, hmem, ?_⟩
  cases hmatches : search.matchesState with
  | true =>
    obtain ⟨later, created, hcompleted, -⟩ := h.explorer.completePrevious_eq (Nat.le_refl _)
    have hreduces : ¬(!search.explorer.reducing) = true := by simp [h.explorer.reducing]
    simp only [consult, hmatches, if_true, Explorer.pathMatched, if_neg hreduces, hcompleted]
      at houtcome
    split at houtcome
    · exact absurd houtcome (Explorer.outcome_moveOn_ne_proceed _ _ _)
    · exact absurd houtcome (Explorer.outcome_moveOn_ne_proceed _ _ _)
  | false =>
    obtain ⟨later, ended, -, -, hdecide, -⟩ :=
      h.explorer.decide_eq search.machine.view (point.advance.2.force due) hmem
    rw [← consult_eq_decide h hdue hmatches] at hdecide
    rw [hdecide] at houtcome ⊢
    cases hends : (ended || search.explorer.atMaxDepth) with
    | false => rfl
    | true =>
      rw [hends] at houtcome
      simp only [Explorer.conclude, if_true] at houtcome
      split at houtcome
      · exact absurd houtcome (Explorer.outcome_moveOn_ne_proceed _ _ _)
      · exact absurd houtcome (Explorer.outcome_moveOn_ne_proceed _ _ _)

/-- The decision of an execution under way is made for the event that is due and does not fail. -/
theorem Underway.decide (h : search.Underway point waiting taken)
    (hlimit : search.atLimit = false) :
    ∃ due ∈ search.code.events,
      search.explorer.schedule.eventAt? search.explorer.counter = some due ∧
        search.Decides point due (search.decide point) := by
  obtain ⟨due, hmem, hdue⟩ := h.explorer.eventAt?_isSome search.explorer.counter
  refine ⟨due, hmem, hdue, ?_⟩
  cases hmatches : search.matchesState with
  | true => exact decide_of_matchesState h hlimit hmem hmatches
  | false => exact decide_of_not_matchesState h hlimit hmem hdue hmatches

end EventOrder.Search
