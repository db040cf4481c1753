import EventOrder.Proofs.Search.Runs

/-!
# Executions and backtrack points

Every execution but the first starts at a backtrack point, and every backtrack point of a search
that is complete got its execution. The history lists the executions in the order in which their
points were taken off the backlog.
-/

namespace EventOrder.Search

variable {search : Search} {point : DecisionPoint} {waiting taken : List BacktrackPoint}

/-- Where an execution of the history started, and the order that it follows. -/
def startOf (start : ExecutionStart) : StateId × List Event := (start.state, start.schedule)

/-- Where the execution of a backtrack point is to start, and the order that it is to follow. -/
def startFor (point : BacktrackPoint) : StateId × List Event := (point.state, point.schedule)

/-- The executions started so far, the one that waits for its first decision included. -/
def started (search : Search) : List (StateId × List Event) :=
  search.explorer.history.toList.map startOf ++
    if search.explorer.counter = 0 then
      [(search.machine.state, search.explorer.schedule.order)]
    else []

/-- Recording the due decision enters a fresh execution into the history. -/
theorem Underway.history_weighed (h : search.Underway point waiting taken) {due : Event}
    (hdue : due ∈ search.code.events) {weighed : Explorer Values PatternFilter}
    (hweighs : search.Weighs point due weighed) :
    weighed.history.toList.map startOf = search.started := by
  rw [(h.weighed hdue hweighs).history, started]
  split <;> simp [startOf]

/-- Executing the due event starts no execution. -/
theorem Underway.started_advanced (h : search.Underway point waiting taken) {due : Event}
    (hdue : due ∈ search.code.events)
    (hweighs : search.Weighs point due (search.weighed point)) :
    (search.advanced point due).started = search.started := by
  have hhistory := h.history_weighed hdue hweighs
  obtain ⟨decisions, -, -, hunderway⟩ := (h.weighed hdue hweighs).underway
  obtain ⟨filter, log, predecessors, heq, -⟩ :=
    search.advanced_explorer point due hunderway.reducing
  rw [← hhistory, started, heq]
  simp [Explorer.proceeded]

/-- A restart starts the execution of its point. -/
theorem Underway.started_restartedAt (h : search.Underway point waiting taken) {due : Event}
    (hdue : due ∈ search.code.events) {weighed : Explorer Values PatternFilter}
    (hweighs : search.Weighs point due weighed) (next : BacktrackPoint) (rest : Backlog)
    (values : Values) (isNew : Bool) (closed : List PointId) :
    (search.restartedAt weighed next rest values isNew closed).started =
      search.started ++ [startFor next] := by
  rw [← h.history_weighed hdue hweighs]
  rfl

/-- What a complete search leaves: the backlog is empty, all its points were taken off it, and the
history lists the first execution and one for each point. -/
structure Concluded (final : Search) (events : List Event) (first : StateId × List Event)
    (taken : List BacktrackPoint) : Prop where
  /-- Nothing can be taken off the backlog. -/
  pop? : final.explorer.knowledge.backlog.pop? = none
  /-- All points were taken off it. -/
  ledger : final.explorer.knowledge.backlog.Ledger [] taken
  /-- The history lists the first execution and one for each point. -/
  history : final.explorer.history.toList.map startOf = first :: taken.map startFor
  /-- The points have orders of all events. -/
  order_of_taken : ∀ point ∈ taken, point.schedule.Perm events

/-- If a search is ready and has started the executions of the points taken so far, then it has
started the executions of all its points when it is complete. -/
theorem Ready.concluded (h : search.Ready point waiting taken) {first : StateId × List Event}
    (hstarted : search.adopt.started = first :: taken.map startFor)
    (horder : ∀ point ∈ taken, point.schedule.Perm search.code.events) {turns : Nat}
    {final : Search}
    (hcomplete : search.takeTurns Search.decide turns point = (final, .ok .complete)) :
    final.Concluded search.code.events first (taken ++ search.popped turns point) := by
  induction turns generalizing search point waiting taken with
  | zero => simp [takeTurns] at hcomplete
  | succ turns ih =>
    have hunderway := h.underway
    have hturns := h.turn
    simp only [takeTurns, popped] at hcomplete ⊢
    generalize search.decide point = turn at hturns hcomplete
    cases hturns with
    | fired hdue hat hrecorded hweighs hnew hafter =>
      refine ih hafter.ready ?_ horder hcomplete
      rw [hafter.adopt_eq, hunderway.started_advanced hdue hweighs, hstarted]
    | @moved due hdue hat hweighs hover popped rest hpop hschedule values isNew closed next
        remaining hafter later hadopt hready =>
      have hcode : later.adopt.code = search.code := by
        rw [hadopt]
        rfl
      change later.code = search.code at hcode
      rw [hpop, ← hcode]
      have hrest := ih hready (by
        rw [hadopt, hunderway.started_restartedAt hdue hweighs, hstarted, List.map_append]
        rfl) (fun point hpoint => ?_) hcomplete
      · simpa using hrest
      · rw [hcode]
        rcases List.mem_append.mp hpoint with hold | hnew
        · exact horder point hold
        · rw [List.mem_singleton.mp hnew]
          exact hschedule
    | @complete due hdue hat hweighs hover hpop last hknowledge hhistory =>
      obtain ⟨more, hledger, -⟩ := (hunderway.weighed hdue hweighs).ledger
      have hempty := hledger.pop?_eq_none_iff.mp hpop
      have hfinal : last = final := congrArg Prod.fst hcomplete
      subst hfinal
      rw [List.append_nil]
      exact
        { pop? := hknowledge ▸ hpop
          ledger := by rw [hknowledge, ← hempty]; exact hledger
          history := by rw [hhistory, hunderway.history_weighed hdue hweighs, hstarted]
          order_of_taken := horder }
    | stopped hlimit hadopt => simp at hcomplete

/-- A search starts with the first execution alone. -/
theorem started_registerPoint {program : Program} {config : ExploreConfig} {limit : Nat}
    (hstart : start program config limit = .ok search) (hreduce : config.stateReduction = true)
    (hevents : program.events ≠ []) :
    search.registerPoint.1.started = [(⟨1⟩, Event.firstEvents program.events.length)] := by
  rw [registerPoint_start hstart hreduce hevents, ← events_code, ← Machine.state_start]
  rfl

/-- What the reduced search of a program leaves when it is complete. -/
theorem concluded_of_explore {program : Program} {config : ExploreConfig} {limit : Nat}
    {final : Search} (hstart : start program config limit = .ok search)
    (hreduce : config.stateReduction = true) (hevents : program.events ≠ [])
    (hcomplete : search.explore = (final, .ok .complete)) :
    final.Concluded (Event.firstEvents program.events.length)
      (⟨1⟩, Event.firstEvents program.events.length) search.backtracks := by
  have hready := (underway_start hstart hreduce hevents).ready
  have hcode : search.registerPoint.1.code.events =
      Event.firstEvents program.events.length := by
    obtain ⟨-, rfl⟩ := start_eq_ok_iff.mp hstart
    exact events_code program
  rw [explore_eq hstart hreduce hevents] at hcomplete
  have hconcluded := hready.concluded
    (by rw [(underway_start hstart hreduce hevents).adopt_eq,
      started_registerPoint hstart hreduce hevents]; rfl) (by simp) hcomplete
  rw [List.nil_append, hcode] at hconcluded
  exact hconcluded

/-- A search that is complete started one execution more than backtrack points were admitted. -/
theorem Concluded.executions_eq {final : Search} {events : List Event}
    {first : StateId × List Event} (h : final.Concluded events first taken) :
    final.explorer.summary.executions = 1 + final.explorer.summary.backtrackPoints := by
  have hlength := congrArg List.length h.history
  have hcreated := h.ledger.created
  simp only [List.length_map, Array.length_toList, List.length_cons] at hlength
  simp only [List.length_nil, Nat.add_zero] at hcreated
  rw [Explorer.summary, hlength, hcreated, Nat.add_comm]

/-- A reduced search that is complete has started the first execution and one for each backtrack
point that it took off the backlog, in this order, and it took off every point it ever admitted.
All of them follow orders of all events, and no two start in the same state with the same event.
The search never came to a decision point that was exhausted or that had no event in force. -/
theorem executions_match_backtracks {program : Program} {config : ExploreConfig} {limit : Nat}
    {final : Search} (hstart : start program config limit = .ok search)
    (hreduce : config.stateReduction = true) (hevents : program.events ≠ [])
    (hcomplete : search.explore = (final, .ok .complete)) :
    final.explorer.summary.executions = 1 + final.explorer.summary.backtrackPoints ∧
      final.explorer.knowledge.backlog.isEmpty = true ∧
      final.explorer.history.toList.map startOf =
        (⟨1⟩, Event.firstEvents program.events.length) :: search.backtracks.map startFor ∧
      search.backtracks.length = final.explorer.summary.backtrackPoints ∧
      (∀ firing, firing ∈ final.explorer.knowledge.backlog.constructed ↔
        firing ∈ search.backtracks.map (·.firing)) ∧
      (search.backtracks.map fun point => (point.state, point.first?)).Nodup ∧
      (∀ start ∈ final.explorer.history,
        start.schedule.Perm (Event.firstEvents program.events.length)) ∧
      ∀ later point,
        Reaches Search.decide search.registerPoint.1 search.registerPoint.2 later point →
        later.machine.closed.contains point.id = false ∧ point.hasMore = true ∧
          ((later.consult point).outcome = .ok .proceed →
            (later.consult point).point.current ≠ none) := by
  have hready := (underway_start hstart hreduce hevents).ready
  have hconcluded := concluded_of_explore hstart hreduce hevents hcomplete
  have hcreated : search.backtracks.length = final.explorer.summary.backtrackPoints :=
    hconcluded.ledger.created.symm
  refine ⟨hconcluded.executions_eq, Backlog.isEmpty_of_pop?_eq_none hconcluded.pop?,
    hconcluded.history, hcreated, ?_, ?_, ?_, ?_⟩
  · simpa using hconcluded.ledger.constructed
  · have hdistinct := hconcluded.ledger.distinct
    rw [List.append_nil] at hdistinct
    refine List.Nodup.of_map (fun start => (⟨start.1, start.2.getD ⟨0⟩⟩ : Firing)) ?_
    rw [List.map_map]
    exact hdistinct
  · intro start hmem
    have hlisted : startOf start ∈ final.explorer.history.toList.map startOf :=
      List.mem_map_of_mem (Array.mem_toList_iff.mpr hmem)
    rw [hconcluded.history] at hlisted
    rcases List.mem_cons.mp hlisted with hfirst | hrest
    · rw [show start.schedule = _ from congrArg Prod.snd hfirst]
    · obtain ⟨point, hpoint, heq⟩ := List.mem_map.mp hrest
      rw [show start.schedule = point.schedule from (congrArg Prod.snd heq).symm]
      exact hconcluded.order_of_taken point hpoint
  · intro later point hreaches
    obtain ⟨waiting, taken, hlater⟩ := hready.of_reaches hreaches
    have hopen := hlater.underway.isOpen
    simp only [Bool.or_eq_false_iff, Bool.not_eq_false'] at hopen
    refine ⟨hopen.1, hopen.2, fun houtcome => ?_⟩
    rw [← hlater.consult_adopt] at houtcome ⊢
    obtain ⟨due, -, hcurrent⟩ := hlater.underway.current_of_proceed houtcome
    simp [hcurrent]

/-- Two events that write different values to one variable are tried in either order from each of
the three states, so six executions follow the first. -/
theorem executions_match_backtracks_twoWriters :
    ∃ search final, start twoWriters {} 0 = .ok search ∧
      search.explore = (final, .ok .complete) ∧ search.backtracks.length = 6 ∧
      final.explorer.summary.executions = 1 + final.explorer.summary.backtrackPoints := by
  have hstart : start twoWriters {} 0 = .ok (initial twoWriters {} 0) :=
    start_eq_ok_iff.mpr ⟨by decide +kernel, rfl⟩
  have houtcome : (initial twoWriters {} 0).explore.2 = .ok .complete := by decide +kernel
  have hlength : (initial twoWriters {} 0).backtracks.length = 6 := by decide +kernel
  have hmatch := executions_match_backtracks hstart rfl (by decide) (Prod.ext rfl houtcome)
  exact ⟨_, _, hstart, Prod.ext rfl houtcome, hlength, hmatch.1⟩

end EventOrder.Search
