import EventOrder.Proofs.Explorer.DepthBound
import EventOrder.Proofs.Search.Counting
import EventOrder.Proofs.Search.Retention

/-!
# The depth bound of a search

With a greatest depth no execution of a reduced search executes more events than that. The decision
at which the bound is met still completes the event before it, so what was recorded of that event is
summarised, and it stays so until the end.
-/

namespace EventOrder.Search

variable {search : Search} {point : DecisionPoint} {waiting taken : List BacktrackPoint}
  {program : Program} {config : ExploreConfig} {limit : Nat}

/-- No event is executed once the execution is as deep as it may be. -/
theorem Ready.atMaxDepth_of_fired (h : search.Ready point waiting taken) {firing : Firing}
    {later : Search} {next : DecisionPoint}
    (hfired : search.decide point = .fired firing later next) :
    search.adopt.explorer.atMaxDepth = false := by
  cases hlimit : search.atLimit with
  | true =>
    have hopen : (search.machine.closed.contains point.id || !point.hasMore) = false :=
      h.underway.isOpen
    exact absurd hfired (by simp [Search.decide, hopen, hlimit])
  | false =>
    obtain ⟨due, -, -, hdecides⟩ := h.underway.decide hlimit
    rw [← h.decide_adopt hlimit, hfired] at hdecides
    cases hdecides with
    | goes _ _ _ hdepth => exact hdepth

/-- A turn keeps the execution under way within the depth bound. -/
private theorem Ready.counter_le_of_turn (h : search.Ready point waiting taken)
    (hbounded : 0 < search.explorer.config.maxDepth) :
    (search.decide point).Leaves fun later _ =>
      later.explorer.config = search.explorer.config ∧
        later.adopt.explorer.counter ≤ search.explorer.config.maxDepth := by
  have hunderway := h.underway
  have hturn := h.turn
  have hdepth {firing : Firing} {later : Search} {next : DecisionPoint}
      (hfired : search.decide point = .fired firing later next) :
      search.adopt.explorer.counter < search.explorer.config.maxDepth := by
    have hgoes := h.atMaxDepth_of_fired hfired
    have hsame : search.adopt.explorer.config = search.explorer.config :=
      search.explorer.adoptPending_same.1
    simpa [Explorer.atMaxDepth, hsame, hbounded] using hgoes
  generalize search.decide point = turn at hturn hdepth
  cases hturn with
  | fired hdue hat hrecorded hweighs hnew hafter =>
    obtain ⟨decisions, -, -, hreducing⟩ := (hunderway.weighed hdue hweighs).underway
    obtain ⟨-, hcounter, -⟩ := hunderway.advanced_same hdue hrecorded hweighs
    refine ⟨?_, ?_⟩
    · rw [(search.adopt.advanced_filter point _ hreducing.reducing).2.1, hweighs.same.1]
      exact search.explorer.adoptPending_same.1
    · rw [hafter.adopt_eq, hcounter]
      exact hdepth rfl
  | @moved due hdue hat hweighs hover popped rest hpop hschedule values isNew closed next
      remaining hafter later hadopt hready =>
    refine ⟨?_, ?_⟩
    · have hlater : later.adopt.explorer.config = later.explorer.config :=
        later.explorer.adoptPending_same.1
      rw [← hlater, hadopt]
      exact hweighs.same.1.trans search.explorer.adoptPending_same.1
    · rw [hadopt]
      exact Nat.zero_le _
  | complete | stopped => trivial

/-- Whatever a search comes to, the execution under way there is within the depth bound. -/
theorem Ready.counter_le_of_reaches (h : search.Ready point waiting taken)
    (hbounded : 0 < search.explorer.config.maxDepth)
    (hwithin : search.adopt.explorer.counter ≤ search.explorer.config.maxDepth) {later : Search}
    {next : DecisionPoint} (hreaches : Reaches Search.decide search point later next) :
    later.explorer.config = search.explorer.config ∧
      later.adopt.explorer.counter ≤ search.explorer.config.maxDepth := by
  refine hreaches.keeps (P := fun later _ => later.explorer.config = search.explorer.config ∧
    later.adopt.explorer.counter ≤ search.explorer.config.maxDepth) ⟨rfl, hwithin⟩
    fun between here hbetween hthere => ?_
  obtain ⟨waits, takes, hready⟩ := h.of_reaches hbetween
  have hturn := hready.counter_le_of_turn (hthere.1 ▸ hbounded)
  rwa [hthere.1] at hturn

/-- Weighing a decision undoes no transition. -/
private theorem taken?_of_weighs (h : search.Underway point waiting taken) {due : Event}
    {weighed : Explorer Values PatternFilter} (hweighs : search.Weighs point due weighed)
    {place : TransitionRef} {transition : Transition}
    (htaken : search.explorer.knowledge.log.taken? place = some transition) :
    weighed.knowledge.log.taken? place = some transition := by
  cases hweighs with
  | matched _ hlearns => rwa [hlearns.log_eq]
  | recorded _ hlearns =>
    rw [hlearns.log_eq]
    exact h.explorer.taken?_noted_of_taken? search.machine.view point.id due htaken

/-- An event's tracked accesses are all recorded, for the variables of a program have different
names. -/
private theorem mem_ofList_tracked (hvalid : program.violation? = none)
    (hcode : search.code = program.code) {due : Event} {access : Access}
    (haccess : access ∈ search.tracked point due) :
    access ∈ Footprint.ofList (search.tracked point due) := by
  refine Footprint.mem_foldl_record (fun other hother hkind hfield => ?_) (Or.inl haccess)
  exact program.unambiguous_declares access other (touches_of_tracked hvalid hcode haccess).declares
    (touches_of_tracked hvalid hcode hother).declares hkind hfield

/-- Whatever was recorded anywhere is summarised from the next decision on. -/
theorem Ready.recorded_summarised (h : search.Ready point waiting taken)
    (hvalid : program.violation? = none) (hcode : search.code = program.code)
    (hretaining : search.adopt.explorer.Retaining program.Declares)
    (hlimit : search.atLimit = false) {place : TransitionRef} {transition : Transition}
    {recorded : Footprint} {access : Access}
    (htaken : search.explorer.knowledge.log.taken? place = some transition)
    (hrecorded : search.explorer.knowledge.log.footprint? place = some recorded)
    (haccess : access ∈ recorded) (turns : Nat) :
    access ∈ (search.takeTurns Search.decide (turns + 1)
      point).1.explorer.knowledge.summary.footprintAt transition.state transition.event := by
  have hunderway := h.underway
  have hturn := h.turn
  have hlater := h.retaining_turn hvalid hcode hretaining
  rw [← search.knowledge_adopt] at htaken hrecorded
  have hweighed {due : Event} (hdue : due ∈ search.code.events)
      (hat : search.adopt.explorer.schedule.eventAt? search.adopt.explorer.counter = some due)
      (hweighs : search.adopt.Weighs point due (search.adopt.weighed point)) :
      access ∈ (search.adopt.weighed point).knowledge.summary.footprintAt transition.state
        transition.event := by
    obtain ⟨-, hretained⟩ := retained_weighed hretaining hunderway hdue hat
    rw [← hweighs.footprint?_eq] at hrecorded
    obtain ⟨there, hthere, hretains⟩ := hretained place recorded hrecorded
    obtain rfl : there = transition :=
      Option.some.inj (hthere.symm.trans (taken?_of_weighs hunderway hweighs htaken))
    exact hretains recorded hrecorded access haccess
  simp only [takeTurns]
  generalize search.decide point = turn at hturn hlater
  cases hturn with
  | @fired due hdue hat hmatches hweighs hnew next more hafter =>
    obtain ⟨decisions, -, -, hreducing⟩ := (hunderway.weighed hdue hweighs).underway
    refine hafter.ready.mem_footprintAt_takeTurns hvalid hlater.1 hlater.2.1 turns ?_
    rw [(search.adopt.advanced_filter point due hreducing.reducing).2.2.2]
    exact hweighed hdue hat hweighs
  | @moved due hdue hat hweighs hover popped rest hpop hschedule values isNew closed next
      remaining hafter later hadopt hready =>
    refine hready.mem_footprintAt_takeTurns hvalid hlater.1 hlater.2.1 turns ?_
    rw [← later.knowledge_adopt, hadopt]
    exact hweighed hdue hat hweighs
  | complete hdue hat hweighs hover hpop hknowledge =>
    rw [hknowledge]
    exact hweighed hdue hat hweighs
  | stopped hstops =>
    have hgoes : search.adopt.atLimit = false := hlimit
    exact absurd (hstops.symm.trans hgoes) (by simp)

/-- Once an event was executed, the next decision completes it, whether or not that decision goes
ahead: all that was tracked of the event is summarised from then on. -/
theorem Ready.tracked_summarised (h : search.Ready point waiting taken)
    (hvalid : program.violation? = none) (hcode : search.code = program.code)
    (hretaining : search.adopt.explorer.Retaining program.Declares) {firing : Firing}
    {later : Search} {next : DecisionPoint}
    (hfired : search.decide point = .fired firing later next)
    (hlimit : later.atLimit = false) {access : Access}
    (haccess : access ∈ search.adopt.tracked point firing.event) (turns : Nat) :
    access ∈ (later.takeTurns Search.decide (turns + 1)
      next).1.explorer.knowledge.summary.footprintAt firing.state firing.event := by
  have hunderway := h.underway
  have hturn := h.turn
  rw [hfired] at hturn
  cases hturn with
  | @fired due hdue hat hrecorded hweighs hnew _ _ hafter =>
    have hlater := retaining_advanced hretaining hunderway hvalid hcode hdue hat hrecorded hweighs
    let here : TransitionRef := ⟨search.adopt.explorer.current, search.adopt.explorer.counter⟩
    obtain ⟨-, -, -, -, htaken⟩ := hunderway.advanced_same hdue hrecorded hweighs
    have hthere := (htaken here).trans (if_pos rfl)
    have hfootprint := (hunderway.footprint?_advanced hdue hrecorded hweighs here).trans
      (if_pos ⟨rfl, List.ne_nil_of_mem haccess⟩)
    have hcodeAdopt : search.adopt.code = program.code := hcode
    have hmem := mem_ofList_tracked hvalid hcodeAdopt haccess
    have hcodeLater : (search.adopt.advanced point due).code = program.code := hcode
    have hsummarised := hafter.ready.recorded_summarised hvalid hcodeLater
      (hafter.adopt_eq.symm ▸ hlater) hlimit hthere hfootprint hmem turns
    exact hsummarised

/-- The reduced search of a program with events stays within the depth bound. -/
private theorem explore_within_depth (hstart : start program config limit = .ok search)
    (hreduce : config.stateReduction = true) (hevents : program.events ≠ [])
    (hbounded : 0 < config.maxDepth) :
    (∀ execution, (search.executions.map Prod.fst).count execution ≤ config.maxDepth) ∧
      ∀ final, search.explore = (final, .ok .complete) →
        final.executed ≤ config.maxDepth * (1 + final.explorer.summary.backtrackPoints) := by
  have hunderway := underway_start hstart hreduce hevents
  have hready := hunderway.ready
  have hregistered := registerPoint_start hstart hreduce hevents
  have hconfig : search.registerPoint.1.explorer.config = config := by
    rw [hregistered]
    rfl
  have hcounter : search.registerPoint.1.adopt.explorer.counter = 0 := by
    rw [hunderway.adopt_eq, hregistered]
    rfl
  have hdepth (later : Search) (next : DecisionPoint)
      (hreaches : Reaches Search.decide search.registerPoint.1 search.registerPoint.2 later next) :
      later.adopt.explorer.counter ≤ config.maxDepth :=
    hconfig ▸ (hready.counter_le_of_reaches (hconfig.symm ▸ hbounded) (by omega) hreaches).2
  obtain ⟨hlength, hcount⟩ :=
    hready.firings_le_of_depth .start hdepth search.registerPoint.1.decisionBound
  refine ⟨fun execution => (hcount execution).trans (roomLeft_le _ _ _), fun final hcomplete => ?_⟩
  have hexecuted := hready.executed_eq search.registerPoint.1.decisionBound
  obtain ⟨-, -, -, hbacktracks, -⟩ := executions_match_backtracks hstart hreduce hevents hcomplete
  have hnone : search.registerPoint.1.executed = 0 := by
    rw [hregistered]
    obtain ⟨-, rfl⟩ := start_eq_ok_iff.mp hstart
    rfl
  rw [← explore_eq hstart hreduce hevents, hcomplete, hnone, Nat.zero_add] at hexecuted
  change final.executed = _ at hexecuted
  change _ ≤ config.maxDepth * search.backtracks.length + _ at hlength
  rw [hcounter, Nat.sub_zero, hbacktracks, ← hexecuted] at hlength
  rw [Nat.mul_add, Nat.mul_one, Nat.add_comm]
  exact hlength

/-- Once the depth bound is met in the reduced search of a program with events, the next decision
executes nothing, and what was tracked of the last event is summarised for good. -/
private theorem explore_completes_last (hstart : start program config limit = .ok search)
    (hreduce : config.stateReduction = true) (hevents : program.events ≠ [])
    {here later : Search} {point next : DecisionPoint} {firing : Firing}
    (hreaches : Reaches Search.decide search.registerPoint.1 search.registerPoint.2 here point)
    (hfired : here.decide point = .fired firing later next)
    (hdepth : later.explorer.atMaxDepth = true) (hlimit : later.atLimit = false) :
    (∀ another last rest, later.decide next ≠ .fired another last rest) ∧
      ∀ access ∈ here.adopt.tracked point firing.event,
        (∀ turns, access ∈ (later.takeTurns Search.decide (turns + 1)
          next).1.explorer.knowledge.summary.footprintAt firing.state firing.event) ∧
        access ∈ search.explore.1.explorer.knowledge.summary.footprintAt firing.state
          firing.event := by
  have hunderway := underway_start hstart hreduce hevents
  have hvalid := (start_eq_ok_iff.mp hstart).1
  obtain ⟨hcode, hretaining⟩ := hunderway.ready.retaining_of_reaches hvalid
    (by obtain ⟨-, rfl⟩ := start_eq_ok_iff.mp hstart; rfl)
    (by rw [hunderway.adopt_eq, registerPoint_start hstart hreduce hevents]
        exact retaining_registered program config) hreaches
  obtain ⟨waits, takes, hready⟩ := hunderway.ready.of_reaches hreaches
  have hthen := hreaches.fired hfired
  obtain ⟨waitsThen, takesThen, hlater⟩ := hunderway.ready.of_reaches hthen
  refine ⟨fun another last rest hanother => ?_, fun access haccess => ?_⟩
  · have hgoes := hlater.atMaxDepth_of_fired hanother
    have hturn := hready.turn
    rw [hfired] at hturn
    cases hturn with
    | fired _ _ _ _ _ hafter =>
      rw [hafter.adopt_eq] at hgoes
      exact absurd (hgoes.symm.trans hdepth) (by simp)
  · have hsummarised := hready.tracked_summarised hvalid hcode hretaining hfired hlimit haccess
    obtain ⟨turns, hturns⟩ := explore_of_reaches hstart hreduce hevents hthen
    exact ⟨hsummarised, hturns ▸ hsummarised turns⟩

/-- The search of a program without events executes nothing. -/
private theorem explore_of_no_events (hstart : start program config limit = .ok search)
    (hevents : program.events = []) :
    search.executions = [] ∧ search.explore.1.executed = 0 := by
  obtain ⟨hexecuted, -, htransitions, -⟩ := explore_counts hstart
  refine ⟨executions_of_no_events hstart hevents, ?_⟩
  rw [hexecuted, ← htransitions, explorer_explore_of_no_events hstart hevents,
    registerPoint_start_of_plain hstart (Or.inr hevents)]
  obtain ⟨-, rfl⟩ := start_eq_ok_iff.mp hstart
  rfl

/-- The depth bound bounds executions. Whatever calls a host makes, in any order, no execution is
let go ahead more often while an order is in force. No execution of a reduced search executes more
events, and a complete one executes no more than this for the first execution and for each backtrack
point. Where the bound is met, the next decision executes nothing, and what was tracked of the last
event is summarised from then on until the end. -/
theorem depth_bounds_executions (config : ExploreConfig) (hbounded : 0 < config.maxDepth) :
    (∀ (σ φ : Type) [AccessFilter φ] (filter : φ) (callbacks : List (Callback σ))
      (execution : ExecutionId),
      ((Explorer.start config filter : Explorer σ φ).goneAhead callbacks).count execution ≤
        config.maxDepth) ∧
    ∀ (program : Program) (limit : Nat) (search : Search),
      start program config limit = .ok search → config.stateReduction = true →
      (∀ execution, (search.executions.map Prod.fst).count execution ≤ config.maxDepth) ∧
      (∀ final, search.explore = (final, .ok .complete) →
        final.executed ≤ config.maxDepth * (1 + final.explorer.summary.backtrackPoints)) ∧
      ∀ here point firing later next,
        Reaches Search.decide search.registerPoint.1 search.registerPoint.2 here point →
        here.decide point = .fired firing later next → later.explorer.atMaxDepth = true →
        later.atLimit = false →
        (∀ another last rest, later.decide next ≠ .fired another last rest) ∧
          ∀ access ∈ here.adopt.tracked point firing.event,
            (∀ turns, access ∈ (later.takeTurns Search.decide (turns + 1)
              next).1.explorer.knowledge.summary.footprintAt firing.state firing.event) ∧
            access ∈ search.explore.1.explorer.knowledge.summary.footprintAt firing.state
              firing.event := by
  refine ⟨fun σ φ _ filter callbacks execution => ?_, fun program limit search hstart hreduce => ?_⟩
  · exact (Explorer.hasAccount_start config filter).count_goneAhead_le hbounded callbacks execution
  · by_cases hevents : program.events = []
    · obtain ⟨hexecutions, hexecuted⟩ := explore_of_no_events hstart hevents
      refine ⟨fun execution => by simp [hexecutions], fun final hcomplete => ?_,
        fun here point firing later next hreaches hfired => ?_⟩
      · rw [hcomplete] at hexecuted
        exact Nat.le_trans (Nat.le_of_eq hexecuted) (Nat.zero_le _)
      · have hended := decide_of_no_events hstart hevents
        obtain ⟨rfl, rfl⟩ := hreaches.eq_of_ended hended
        exact absurd (hended.symm.trans hfired) (by simp)
    · obtain ⟨hcount, hcomplete⟩ := explore_within_depth hstart hreduce hevents hbounded
      exact ⟨hcount, hcomplete, fun here point firing later next hreaches hfired hdepth hlimit =>
        explore_completes_last hstart hreduce hevents hreaches hfired hdepth hlimit⟩

/-- With the depth bound two, two of three decisions go ahead, and the search of two events that
write one variable keeps what its first execution wrote last. -/
theorem depth_bounds_executions_twoWriters :
    let first : Explorer Unit TrackAll := .start { maxDepth := 2 } TrackAll.mk
    (first.goneAhead Explorer.threeWrites).count ⟨0⟩ ≤ 2 ∧
      first.goneAhead Explorer.threeWrites = [⟨0⟩, ⟨0⟩] ∧
      ∃ search final, start twoWriters { maxDepth := 2 } 0 = .ok search ∧
        search.explore = (final, .ok .complete) ∧
        (search.executions.map Prod.fst).count ⟨0⟩ ≤ 2 ∧
        final.executed ≤ 2 * (1 + final.explorer.summary.backtrackPoints) ∧
        ⟨.write, "x", ⟨1⟩⟩ ∈ final.explorer.knowledge.summary.footprintAt ⟨2⟩ ⟨1⟩ := by
  have hstart : start twoWriters { maxDepth := 2 } 0 =
      .ok (initial twoWriters { maxDepth := 2 } 0) :=
    start_eq_ok_iff.mpr ⟨by decide +kernel, rfl⟩
  have houtcome : (initial twoWriters { maxDepth := 2 } 0).explore.2 = .ok .complete := by
    decide +kernel
  obtain ⟨hhost, hsearch⟩ := depth_bounds_executions { maxDepth := 2 } (by decide)
  obtain ⟨hcount, hcomplete, hlast⟩ := hsearch twoWriters 0 _ hstart rfl
  refine ⟨hhost Unit TrackAll TrackAll.mk Explorer.threeWrites ⟨0⟩, by decide +kernel, _, _, hstart,
    Prod.ext rfl houtcome, hcount ⟨0⟩, hcomplete _ (Prod.ext rfl houtcome), ?_⟩
  -- The first two turns of the search execute an event each, and then the bound is met.
  have hmet : (match (initial twoWriters { maxDepth := 2 } 0).registerPoint.1.decide
        (initial twoWriters { maxDepth := 2 } 0).registerPoint.2 with
      | .fired _ here point =>
        match here.decide point with
        | .fired firing later _ =>
          firing == ⟨⟨2⟩, ⟨1⟩⟩ && later.explorer.atMaxDepth && !later.atLimit &&
            (here.adopt.tracked point firing.event).contains ⟨.write, "x", ⟨1⟩⟩
        | _ => false
      | _ => false) = true := by
    decide +kernel
  cases hfirst : (initial twoWriters { maxDepth := 2 } 0).registerPoint.1.decide
      (initial twoWriters { maxDepth := 2 } 0).registerPoint.2 with
  | fired firing here point =>
    simp only [hfirst] at hmet
    cases hsecond : here.decide point with
    | fired firing later next =>
      simp only [hsecond, Bool.and_eq_true, beq_iff_eq, Bool.not_eq_true', List.contains_iff_mem]
        at hmet
      obtain ⟨⟨⟨rfl, hdepth⟩, hlimit⟩, haccess⟩ := hmet
      obtain ⟨-, hsummarised⟩ := hlast here point _ later next (Reaches.start.fired hfirst) hsecond
        hdepth hlimit
      exact (hsummarised _ haccess).2
    | moved | ended => simp [hsecond] at hmet
  | moved | ended => simp [hfirst] at hmet

end EventOrder.Search
