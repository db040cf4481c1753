import EventOrder.Proofs.Machine.Reachable
import EventOrder.Proofs.Search.Restarts
import EventOrder.Proofs.Search.Tracks

/-!
# Termination of the reduced search

A program has a finite number of firings, each an event in a reachable state. An execution executes
every one of them at most once after its first decision, and every execution but the first starts
with a firing that no other one started with. So the reduced search comes to an end by itself, and
the turns that it is given for a program are never used up.
-/

namespace EventOrder

/-- How many firings a program has: each of its events in each of its reachable states. -/
noncomputable def Code.firingCount (code : Code) : Nat := code.reachable.ncard * code.events.length

namespace Search

variable {search : Search} {point : DecisionPoint} {waiting taken : List BacktrackPoint}

/-- The states and events of a search under way are counted among the firings of the program. -/
structure Accounted (search : Search) (taken : List BacktrackPoint) : Prop where
  /-- The execution under way is tracked. -/
  tracks : search.Tracks
  /-- Only reachable states are numbered. -/
  explores : search.machine.Explores search.code
  /-- The points taken off the backlog started executions in numbered states. -/
  numbered_of_taken : ∀ point ∈ taken,
    ∃ values : Values, search.machine.numbering[values]? = some point.state
  /-- They start with an event of the program. -/
  order_of_taken : ∀ point ∈ taken, point.schedule.Perm search.code.events

/-- Every state with a snapshot is numbered. -/
private theorem numbered_of_mem_snapshots (h : search.Underway point waiting taken)
    {state : StateId} (hstate : state ∈ search.explorer.snapshots) :
    ∃ values : Values, search.machine.numbering[values]? = some state := by
  obtain ⟨values, hvalues⟩ := Option.isSome_iff_exists.mp
    (Std.ExtTreeMap.mem_iff_isSome_getElem?.mp hstate)
  exact ⟨values, h.numbered_of_snapshot state values hvalues⟩

/-- The execution under way made no more decisions than there are firings, after its first. -/
theorem Accounted.counter_le (haccounted : search.Accounted taken)
    (h : search.Underway point waiting taken) :
    search.explorer.counter ≤ search.code.firingCount + 1 := by
  have hplaces (index : Fin (search.explorer.counter - 1)) :
      ∃ transition, search.explorer.knowledge.log.taken?
        ⟨search.explorer.current, index.val + 1⟩ = some transition :=
    h.explorer.taken_of_lt (by omega)
  choose transition htaken using hplaces
  have hdistinct : (List.ofFn fun index =>
      (⟨(transition index).state, (transition index).event⟩ : Firing)).Nodup := by
    refine List.nodup_ofFn_ofInjective fun first second heq => ?_
    obtain ⟨hstate, hevent⟩ := Firing.mk.inj heq
    by_contra hne
    rcases Nat.lt_or_gt_of_ne (Fin.val_ne_of_ne hne) with hlt | hgt
    · exact haccounted.tracks.distinct _ _ _ _ (by omega) (by omega) (htaken first)
        (htaken second) hstate hevent
    · exact haccounted.tracks.distinct _ _ _ _ (by omega) (by omega) (htaken second)
        (htaken first) hstate.symm hevent.symm
  have hlength := haccounted.explores.length_firings_le h.machine.toNumbered hdistinct
    (fun firing hfiring => by
      obtain ⟨index, rfl⟩ := List.mem_ofFn.mp hfiring
      exact numbered_of_mem_snapshots h (h.explorer.snapshot_of_taken _ _ (htaken index)))
    (fun firing hfiring => by
      obtain ⟨index, rfl⟩ := List.mem_ofFn.mp hfiring
      exact h.explorer.coherent.event_of_taken _ _ (htaken index))
  rw [List.length_ofFn] at hlength
  unfold Code.firingCount
  omega

/-- No more points were taken off the backlog than there are firings. -/
theorem Accounted.length_taken_le (haccounted : search.Accounted taken)
    (h : search.Underway point waiting taken) : taken.length ≤ search.code.firingCount := by
  have hdistinct : (taken.map (·.firing)).Nodup := by
    have hall := h.ledger.distinct
    rw [List.map_append] at hall
    exact hall.of_append_left
  have hlength := haccounted.explores.length_firings_le h.machine.toNumbered hdistinct
    (fun firing hfiring => by
      obtain ⟨point, hpoint, rfl⟩ := List.mem_map.mp hfiring
      exact haccounted.numbered_of_taken point hpoint)
    (fun firing hfiring => by
      obtain ⟨point, hpoint, rfl⟩ := List.mem_map.mp hfiring
      have horder := haccounted.order_of_taken point hpoint
      cases hschedule : point.schedule with
      | nil =>
        rw [hschedule] at horder
        exact absurd horder.symm.eq_nil h.explorer.nonempty
      | cons first rest =>
        rw [hschedule] at horder
        have hfirst : point.firing.event = first := by
          simp [BacktrackPoint.firing, BacktrackPoint.first?, hschedule]
        rw [hfirst]
        exact horder.mem_iff.mp List.mem_cons_self)
  rwa [List.length_map] at hlength

/-- Executing the due event stays within the firings of the program. -/
theorem Accounted.advanced (haccounted : search.Accounted taken)
    (h : search.Underway point waiting taken) {due : Event} (hdue : due ∈ search.code.events)
    (hat : search.explorer.schedule.eventAt? search.explorer.counter = some due)
    (hrecorded : search.matchesState = false)
    (hweighs : search.Weighs point due (search.weighed point))
    (hnew : 0 < search.explorer.counter → search.machine.isNew = false →
      search.explorer.coversAllEvents search.machine.state = false) :
    (search.advanced point due).Accounted taken where
  tracks := haccounted.tracks.advanced h hdue hat hrecorded hweighs hnew
  explores := haccounted.explores.moveTo
    ((haccounted.explores _ _ h.machine.here).step hdue)
  numbered_of_taken point hpoint := by
    obtain ⟨values, hvalues⟩ := haccounted.numbered_of_taken point hpoint
    exact ⟨values, Machine.numbering_moveTo hvalues _⟩
  order_of_taken := haccounted.order_of_taken

/-- So does a restart, which takes a point of a numbered state off the backlog. -/
theorem Accounted.restartedAt (haccounted : search.Accounted taken)
    (h : search.Underway point waiting taken) {due : Event} (hdue : due ∈ search.code.events)
    {weighed : Explorer Values PatternFilter} (hweighs : search.Weighs point due weighed)
    {next : BacktrackPoint} {rest : Backlog}
    (hpop : weighed.knowledge.backlog.pop? = some (next, rest)) (values : Values) (isNew : Bool)
    (closed : List PointId) :
    (search.restartedAt weighed next rest values isNew closed).Accounted (taken ++ [next]) := by
  obtain ⟨hschedule, ⟨values, -, hnumbered⟩, -⟩ := (h.weighed hdue hweighs).pop? hpop
  refine ⟨.restartedAt h hdue hweighs next rest _ isNew closed, haccounted.explores, ?_, ?_⟩
  · intro point hpoint
    rcases List.mem_append.mp hpoint with hold | hnew
    · exact haccounted.numbered_of_taken point hold
    · rw [List.mem_singleton.mp hnew]
      exact ⟨values, hnumbered⟩
  · intro point hpoint
    rcases List.mem_append.mp hpoint with hold | hnew
    · exact haccounted.order_of_taken point hold
    · rw [List.mem_singleton.mp hnew]
      exact hschedule

/-- Nothing needs to be accounted for at the start. -/
theorem accounted_start {program : Program} {config : ExploreConfig} {limit : Nat}
    (hstart : start program config limit = .ok search) (hreduce : config.stateReduction = true)
    (hevents : program.events ≠ []) : search.registerPoint.1.Accounted [] := by
  refine ⟨tracks_start hstart hreduce hevents, ?_, by simp, by simp⟩
  rw [registerPoint_start hstart hreduce hevents]
  obtain ⟨-, rfl⟩ := start_eq_ok_iff.mp hstart
  exact Machine.explores_start program.code

/-- How many more turns a search can take: each execution that can still be started takes a turn for
its restart and one for each of its decisions. -/
noncomputable def turnsLeft (search : Search) (taken : List BacktrackPoint) : Nat :=
  (search.code.firingCount - taken.length) * (search.code.firingCount + 2) +
    (search.code.firingCount + 1 - search.explorer.counter)

/-- One more decision is one turn less. -/
private theorem turnsLeft_lt_of_counter {search later : Search} {taken : List BacktrackPoint}
    (hcode : later.code = search.code)
    (hcounter : later.explorer.counter = search.explorer.counter + 1)
    (hbound : later.explorer.counter ≤ search.code.firingCount + 1) :
    later.turnsLeft taken < search.turnsLeft taken := by
  unfold turnsLeft
  rw [hcode, hcounter]
  omega

/-- A restart is one turn less, too. -/
private theorem turnsLeft_lt_of_restart {search later : Search} {taken : List BacktrackPoint}
    {next : BacktrackPoint} (hcode : later.code = search.code)
    (hbound : (taken ++ [next]).length ≤ search.code.firingCount) :
    later.turnsLeft (taken ++ [next]) < search.turnsLeft taken := by
  unfold turnsLeft
  rw [hcode]
  simp only [List.length_append, List.length_singleton] at hbound ⊢
  obtain ⟨rest, hrest⟩ : ∃ rest, search.code.firingCount = taken.length + 1 + rest :=
    Nat.exists_eq_add_of_le hbound
  have hleft : search.code.firingCount - taken.length = rest + 1 := by omega
  have hafter : search.code.firingCount - (taken.length + 1) = rest := by omega
  rw [hleft, hafter, Nat.succ_mul]
  omega

/-- A turn keeps everything accounted for and takes up one of those that were left. An execution is
started for every point that it takes off the backlog. -/
private theorem Ready.accounted_turn (h : search.Ready point waiting taken)
    (haccounted : search.adopt.Accounted taken) :
    (search.decide point).Leaves fun later next => ∃ waits takes,
      later.Ready next waits takes ∧ later.adopt.Accounted takes ∧ later.code = search.code ∧
        later.limit = search.limit ∧
        later.adopt.turnsLeft takes < search.adopt.turnsLeft taken ∧
        later.adopt.started.length + taken.length = search.adopt.started.length + takes.length := by
  have hunderway := h.underway
  have hturn := h.turn
  generalize search.decide point = turn at hturn
  cases hturn with
  | @fired due hdue hat hrecorded hweighs hnew next more hafter =>
    have hlater := haccounted.advanced hunderway hdue hat hrecorded hweighs hnew
    obtain ⟨-, hcounter, -⟩ := hunderway.advanced_same hdue hrecorded hweighs
    refine ⟨_, taken, hafter.ready, hafter.adopt_eq.symm ▸ hlater, rfl, rfl, ?_, ?_⟩
    · rw [hafter.adopt_eq]
      exact turnsLeft_lt_of_counter rfl hcounter (hlater.counter_le hafter)
    · rw [hafter.adopt_eq, hunderway.started_advanced hdue hweighs]
  | @moved due hdue hat hweighs hover popped rest hpop hschedule values isNew closed next
      remaining hafter later hadopt hready =>
    have hlater := haccounted.restartedAt hunderway hdue hweighs hpop values isNew closed
    have hcode : later.adopt.code = search.code := by rw [hadopt]; rfl
    have hlimit : later.adopt.limit = search.limit := by rw [hadopt]; rfl
    refine ⟨_, _, hready, hadopt.symm ▸ hlater, hcode, hlimit, ?_, ?_⟩
    · rw [hadopt]
      exact turnsLeft_lt_of_restart rfl (hlater.length_taken_le hafter)
    · rw [hadopt, hunderway.started_restartedAt hdue hweighs]
      simp only [List.length_append, List.length_singleton]
      omega
  | complete | stopped => trivial

/-- Without a limit on the events, a search completes within the turns that it can still take, and
it has then started no more executions than there are firings, after the first. -/
theorem Ready.completes (h : search.Ready point waiting taken)
    (haccounted : search.adopt.Accounted taken)
    (hstarted : search.adopt.started.length = 1 + taken.length) (hlimit : search.limit = 0)
    {turns : Nat} (hturns : search.adopt.turnsLeft taken < turns) :
    ∃ final, search.takeTurns decide turns point = (final, .ok .complete) ∧
      final.explorer.history.size ≤ 1 + search.code.firingCount := by
  induction turns generalizing search point waiting taken with
  | zero => exact absurd hturns (Nat.not_lt_zero _)
  | succ turns ih =>
    have hunderway := h.underway
    have hturn := h.turn
    have hthen := h.accounted_turn haccounted
    simp only [takeTurns]
    generalize search.decide point = turn at hturn hthen
    cases hturn with
    | fired | moved =>
      obtain ⟨waits, takes, hready, hlater, hcode, hsame, hfewer, hcount⟩ := hthen
      rw [← hcode]
      exact ih hready hlater (by omega) (hsame.trans hlimit) (by omega)
    | @complete due hdue hat hweighs hover hpop last hknowledge hhistory =>
      refine ⟨last, rfl, ?_⟩
      have hsize := congrArg List.length (hunderway.history_weighed hdue hweighs)
      rw [List.length_map, Array.length_toList, hstarted] at hsize
      rw [hhistory, hsize]
      exact Nat.add_le_add_left (haccounted.length_taken_le hunderway) 1
    | stopped hstops =>
      have hunlimited : search.adopt.atLimit = false := by
        simp [atLimit, adopt, hlimit]
      rw [hunlimited] at hstops
      exact absurd hstops (by simp)

/-- How many more events a search can execute, one for each decision that can still be made. -/
noncomputable def eventsLeft (search : Search) (taken : List BacktrackPoint) : Nat :=
  (search.code.firingCount - taken.length) * (search.code.firingCount + 1) +
    (search.code.firingCount + 1 - search.explorer.counter)

/-- How many more events the execution of a name can execute: none when it is over, what is left of
its decisions when it is under way, and all of them when it is yet to come. -/
noncomputable def eventsLeftIn (search : Search) (execution : ExecutionId) : Nat :=
  if execution.number < search.explorer.current.number then 0
  else if execution = search.explorer.current then
    search.code.firingCount + 1 - search.explorer.counter
  else search.code.firingCount + 1

/-- Whatever a search comes to, it comes to in turns that it had left, and its remaining turns are
those taken from there. -/
theorem Ready.takeTurns_of_reaches (h : search.Ready point waiting taken)
    (haccounted : search.adopt.Accounted taken) {later : Search} {next : DecisionPoint}
    (hreaches : Reaches Search.decide search point later next) :
    ∃ spent waits takes, later.Ready next waits takes ∧ later.adopt.Accounted takes ∧
      later.code = search.code ∧
      spent + later.adopt.turnsLeft takes ≤ search.adopt.turnsLeft taken ∧
      ∀ turns,
        search.takeTurns decide (spent + turns) point = later.takeTurns decide turns next := by
  induction hreaches with
  | start =>
    exact ⟨0, waiting, taken, h, haccounted, rfl, by omega, fun turns => by rw [Nat.zero_add]⟩
  | fired _ hturn ih | moved _ hturn ih =>
    obtain ⟨spent, waits, takes, hready, haccounted, hcode, hspent, hrest⟩ := ih
    have hthen := hready.accounted_turn haccounted
    rw [hturn] at hthen
    obtain ⟨waitsThen, takesThen, hlast, hstill, hsame, -, hfewer, -⟩ := hthen
    refine ⟨spent + 1, waitsThen, takesThen, hlast, hstill, hsame.trans hcode, by omega,
      fun turns => ?_⟩
    rw [Nat.add_assoc, Nat.add_comm 1, hrest, takeTurns, hturn]

/-- No more points are taken off the backlog than there are firings left. -/
theorem Ready.length_popped_le (h : search.Ready point waiting taken)
    (haccounted : search.adopt.Accounted taken) (turns : Nat) :
    (popped turns search point).length ≤ search.code.firingCount - taken.length := by
  induction turns generalizing search point waiting taken with
  | zero => exact Nat.zero_le _
  | succ turns ih =>
    have hunderway := h.underway
    have hturn := h.turn
    simp only [popped]
    generalize search.decide point = turn at hturn
    cases hturn with
    | fired hdue hat hrecorded hweighs hnew hafter =>
      have hlater := haccounted.advanced hunderway hdue hat hrecorded hweighs hnew
      exact ih hafter.ready (hafter.adopt_eq.symm ▸ hlater)
    | @moved due hdue hat hweighs hover popped rest hpop hschedule values isNew closed next
        remaining hafter later hadopt hready =>
      have hlater := haccounted.restartedAt hunderway hdue hweighs hpop values isNew closed
      have hbound : (taken ++ [popped]).length ≤ search.code.firingCount :=
        hlater.length_taken_le hafter
      have hcode : later.adopt.code = search.code := by rw [hadopt]; rfl
      change later.code = search.code at hcode
      have hrest := ih hready (hadopt.symm ▸ hlater)
      rw [hcode] at hrest
      simp only [List.length_append, List.length_singleton] at hbound hrest
      simp only [hpop, Option.map_some, Option.toList_some, List.singleton_append,
        List.length_cons]
      omega
    | complete | stopped => exact Nat.zero_le _

/-- The events executed in the turns of a search, all together and in each execution, are no more
than those left. -/
theorem Ready.firings_le (h : search.Ready point waiting taken)
    (haccounted : search.adopt.Accounted taken) (turns : Nat) :
    (firings decide turns search point).length ≤ search.adopt.eventsLeft taken ∧
      ∀ execution, ((firings decide turns search point).map Prod.fst).count execution ≤
        search.adopt.eventsLeftIn execution := by
  have hdepth (later : Search) (next : DecisionPoint)
      (hreaches : Reaches Search.decide search point later next) :
      later.adopt.explorer.counter ≤ search.code.firingCount + 1 := by
    obtain ⟨spent, waits, takes, hready, hlater, hcode, -⟩ :=
      h.takeTurns_of_reaches haccounted hreaches
    exact hcode ▸ hlater.counter_le hready.underway
  obtain ⟨hlength, hcount⟩ := h.firings_le_of_depth .start hdepth turns
  have hpopped := Nat.mul_le_mul_left (search.code.firingCount + 1)
    (h.length_popped_le haccounted turns)
  refine ⟨?_, hcount⟩
  refine hlength.trans (Nat.add_le_add_right (hpopped.trans_eq (Nat.mul_comm _ _)) _)

/-- A search counts the events that it executes. -/
theorem Ready.executed_eq (h : search.Ready point waiting taken) (turns : Nat) :
    (search.takeTurns decide turns point).1.executed =
      search.executed + (firings decide turns search point).length := by
  induction turns generalizing search point waiting taken with
  | zero => rfl
  | succ turns ih =>
    have hturn := h.turn
    simp only [takeTurns, firings]
    generalize search.decide point = turn at hturn
    cases hturn with
    | @fired due hdue hat hrecorded hweighs hnew next more hafter =>
      have hexecuted : (search.adopt.advanced point due).executed = search.executed + 1 := rfl
      simp only [ih hafter.ready, List.length_cons, hexecuted]
      omega
    | @moved due hdue hat hweighs hover popped rest hpop hschedule values isNew closed next
        remaining hafter later hadopt hready =>
      have hexecuted : later.adopt.executed = search.executed := by rw [hadopt]; rfl
      change later.executed = search.executed at hexecuted
      simp only [ih hready, hexecuted]
    | complete hdue hat hweighs hover hpop hknowledge hhistory hmachine hexecuted =>
      exact hexecuted
    | @stopped last hlimit hadopt =>
      exact (congrArg Search.executed hadopt : last.adopt.executed = _)

/-- The turns that a search is given for its program are enough. -/
private theorem turnsLeft_lt_decisionBound (search : Search) :
    search.turnsLeft [] < search.decisionBound := by
  have hcount : search.code.firingCount ≤ search.stateBound * search.code.bodies.length := by
    refine Nat.mul_le_mul search.code.ncard_reachable_le (Nat.le_of_eq ?_)
    simp [Code.events, Event.firstEvents]
  have hsquare := Nat.mul_le_mul (Nat.succ_le_succ hcount) (Nat.add_le_add_right hcount 2)
  have hleft : search.turnsLeft [] ≤
      search.code.firingCount * (search.code.firingCount + 2) + (search.code.firingCount + 1) := by
    simp only [turnsLeft, List.length_nil, Nat.sub_zero]
    omega
  have hproduct : (search.code.firingCount + 1) * (search.code.firingCount + 2) =
      search.code.firingCount * (search.code.firingCount + 2) +
        (search.code.firingCount + 2) := Nat.succ_mul _ _
  simp only [decisionBound, Nat.succ_eq_add_one] at hsquare ⊢
  omega

/-- Whatever the reduced search of a program comes to, it takes at least one more turn from there
and so comes to its end. -/
theorem explore_of_reaches {program : Program} {config : ExploreConfig} {limit : Nat}
    (hstart : start program config limit = .ok search) (hreduce : config.stateReduction = true)
    (hevents : program.events ≠ []) {later : Search} {next : DecisionPoint}
    (hreaches : Reaches Search.decide search.registerPoint.1 search.registerPoint.2 later next) :
    ∃ turns, search.explore = later.takeTurns decide (turns + 1) next := by
  have hunderway := underway_start hstart hreduce hevents
  have haccounted : search.registerPoint.1.adopt.Accounted [] :=
    hunderway.adopt_eq.symm ▸ accounted_start hstart hreduce hevents
  obtain ⟨spent, waits, takes, -, -, -, hspent, hrest⟩ :=
    hunderway.ready.takeTurns_of_reaches haccounted hreaches
  rw [hunderway.adopt_eq] at hspent
  have hbound := turnsLeft_lt_decisionBound search.registerPoint.1
  obtain ⟨turns, hturns⟩ := Nat.exists_eq_add_of_lt
    (Nat.lt_of_le_of_lt (Nat.le_of_add_right_le hspent) hbound)
  refine ⟨turns, ?_⟩
  rw [explore_eq hstart hreduce hevents, hturns, Nat.add_assoc, hrest]

/-- Without a limit on the events the reduced search of a program completes, with no more executions
than there are firings after the first. -/
theorem explore_completes {program : Program} {config : ExploreConfig}
    (hstart : start program config 0 = .ok search) (hreduce : config.stateReduction = true)
    (hevents : program.events ≠ []) :
    ∃ final, search.explore = (final, .ok .complete) ∧
      final.explorer.history.size ≤ 1 + search.registerPoint.1.code.firingCount := by
  have hunderway := underway_start hstart hreduce hevents
  rw [explore_eq hstart hreduce hevents]
  obtain ⟨-, rfl⟩ := start_eq_ok_iff.mp hstart
  refine hunderway.ready.completes
    (hunderway.adopt_eq.symm ▸ accounted_start hstart hreduce hevents) ?_
    (by rw [registerPoint_start hstart hreduce hevents]; rfl) ?_
  · rw [hunderway.adopt_eq, started_registerPoint hstart hreduce hevents]
    rfl
  · rw [hunderway.adopt_eq]
    exact turnsLeft_lt_decisionBound _

/-- The reduced search of a program completes by itself when the number of events is not limited.
With `R` reachable lists of values and `N` events it starts at most `1 + R * N` executions, none of
them executes more than `R * N + 1` events, and so all of them together execute at most
`(1 + R * N) * (R * N + 1)`. -/
theorem reduced_search_terminates {program : Program} {config : ExploreConfig}
    (hstart : start program config 0 = .ok search) (hreduce : config.stateReduction = true)
    (hevents : program.events ≠ []) :
    program.code.reachable.Finite ∧
      ∃ final, search.explore = (final, .ok .complete) ∧
        final.explorer.summary.executions ≤
          1 + program.code.reachable.ncard * program.events.length ∧
        (∀ execution, (search.executions.map Prod.fst).count execution ≤
          program.code.reachable.ncard * program.events.length + 1) ∧
        final.executed = search.executions.length ∧
        final.executed ≤ (1 + program.code.reachable.ncard * program.events.length) *
          (program.code.reachable.ncard * program.events.length + 1) := by
  have hunderway := underway_start hstart hreduce hevents
  have hready := hunderway.ready
  have haccounted : search.registerPoint.1.adopt.Accounted [] :=
    hunderway.adopt_eq.symm ▸ accounted_start hstart hreduce hevents
  have hregistered := registerPoint_start hstart hreduce hevents
  have hexplore := explore_eq hstart hreduce hevents
  obtain ⟨-, rfl⟩ := start_eq_ok_iff.mp hstart
  have hcount : (initial program config 0).registerPoint.1.code.firingCount =
      program.code.reachable.ncard * program.events.length := by
    rw [hregistered]
    simp [Code.firingCount, initial, events_code, Event.firstEvents]
  have hcounter : (initial program config 0).registerPoint.1.explorer.counter = 0 := by
    rw [hregistered]
    rfl
  have hcurrent : (initial program config 0).registerPoint.1.explorer.current = ⟨0⟩ := by
    rw [hregistered]
    rfl
  obtain ⟨final, hcomplete, hhistory⟩ := explore_completes hstart hreduce hevents
  obtain ⟨hlength, hexecution⟩ := hready.firings_le haccounted
    (initial program config 0).registerPoint.1.decisionBound
  have hexecuted := hready.executed_eq (initial program config 0).registerPoint.1.decisionBound
  rw [← hexplore, hcomplete] at hexecuted
  rw [hunderway.adopt_eq] at hlength hexecution
  have hnone : (initial program config 0).registerPoint.1.executed = 0 := by
    rw [hregistered]
    rfl
  rw [hnone, Nat.zero_add] at hexecuted
  change final.executed = (initial program config 0).executions.length at hexecuted
  change (initial program config 0).executions.length ≤ _ at hlength
  simp only [eventsLeft, hcount, hcounter, List.length_nil, Nat.sub_zero] at hlength
  rw [hcount] at hhistory
  refine ⟨program.code.finite_reachable, final, hcomplete, hhistory,
    fun execution => ?_, hexecuted, ?_⟩
  · refine (hexecution execution).trans ?_
    simp only [eventsLeftIn, hcount, hcounter, hcurrent, Nat.not_lt_zero, if_false, Nat.sub_zero]
    split <;> exact Nat.le_refl _
  · rw [hexecuted, Nat.add_comm 1, Nat.succ_mul]
    exact hlength

/-- The search of two events that write one variable ends within the bounds for its program. -/
theorem reduced_search_terminates_twoWriters :
    ∃ search final, start twoWriters {} 0 = .ok search ∧
      search.explore = (final, .ok .complete) ∧ final.executed = search.executions.length ∧
        final.explorer.summary.executions ≤ 1 + twoWriters.code.reachable.ncard * 2 := by
  have hstart : start twoWriters {} 0 = .ok (initial twoWriters {} 0) :=
    start_eq_ok_iff.mpr ⟨by decide +kernel, rfl⟩
  obtain ⟨-, final, hcomplete, hbound, -, hexecuted, -⟩ :=
    reduced_search_terminates hstart rfl (by decide)
  exact ⟨_, final, hstart, hcomplete, hexecuted, hbound⟩

end Search

end EventOrder
