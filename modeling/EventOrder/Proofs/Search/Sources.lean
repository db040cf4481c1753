import EventOrder.Proofs.Race.Sources
import EventOrder.Proofs.Search.Expansion
import EventOrder.Proofs.Search.Moments
import EventOrder.Proofs.Search.Recording

/-!
# Where a search has its summary from

At every moment of a reduced search, whatever is summarised at a state was recorded downstream of it
while an event was executed, and every event that something is summarised for was executed. A turn
keeps this up: the event before a decision is completed with what was recorded of it, a state is
replayed against the place that has just led into it, and executing the due event records accesses
at the place of its decision only.
-/

namespace EventOrder

namespace Knowledge

variable {knowledge later : Knowledge} {done : List (ExecutionId × Firing)}

/-- Whatever is recorded was recorded while one of the events was executed. -/
def RecordedIn (knowledge : Knowledge) (done : List (ExecutionId × Firing)) : Prop :=
  ∀ place recorded, knowledge.log.footprint? place = some recorded →
    ∃ transition, knowledge.log.taken? place = some transition ∧
      (place.execution, ⟨transition.state, transition.event⟩) ∈ done

/-- The summary holds nothing but accesses that were recorded downstream while one of the events was
executed, and each event that it holds something for is one of them. -/
def SummaryFrom (knowledge : Knowledge) (done : List (ExecutionId × Firing)) : Prop :=
  ∀ state event footprint, knowledge.summary.get? state event = some footprint →
    (∃ execution firing, (execution, firing) ∈ done ∧ firing.event = event) ∧
      ∀ access ∈ footprint, ∃ place transition recorded, knowledge.Downstream state place ∧
        knowledge.log.taken? place = some transition ∧
          (place.execution, ⟨transition.state, transition.event⟩) ∈ done ∧
            knowledge.log.footprint? place = some recorded ∧ access ∈ recorded

/-- Nothing more is recorded, so all of it was recorded while one of the events was executed. -/
theorem RecordedIn.mono (h : knowledge.RecordedIn done) (hkept : knowledge.Keeps later)
    (hrecorded : ∀ place recorded, later.log.footprint? place = some recorded →
      knowledge.log.footprint? place = some recorded) : later.RecordedIn done := by
  intro place recorded hplace
  obtain ⟨transition, htaken, hdone⟩ := h place recorded (hrecorded place recorded hplace)
  exact ⟨transition, hkept.taken place transition htaken, hdone⟩

/-- A summary comes from the events executed if it is accounted for by what was recorded of them,
even when more was recorded since. -/
theorem Accounts.summaryFrom (h : knowledge.Accounts knowledge.summary)
    (hdone : knowledge.RecordedIn done) (hkept : knowledge.Keeps later)
    (hsummary : later.summary = knowledge.summary) : later.SummaryFrom done := by
  intro state event footprint hentry
  rw [hsummary] at hentry
  obtain ⟨⟨source, fired, held, hsource, rfl, hheld⟩, haccesses⟩ := h state event footprint hentry
  refine ⟨?_, fun access haccess => ?_⟩
  · obtain ⟨transition, htaken, hmem⟩ := hdone source held hheld
    obtain rfl : fired = transition := Option.some.inj (hsource.symm.trans htaken)
    exact ⟨_, _, hmem, rfl⟩
  · obtain ⟨place, recorded, ⟨earlier, first, hleads, hfirst, hstate⟩, hplace, hmem⟩ :=
      haccesses access haccess
    obtain ⟨transition, htaken, hexecuted⟩ := hdone place recorded hplace
    exact ⟨place, transition, recorded,
      ⟨earlier, first, hleads.mono hkept, hkept.taken _ _ hfirst, hstate⟩,
      hkept.taken _ _ htaken, hexecuted, hkept.footprint _ _ hplace, hmem⟩

end Knowledge

namespace Explorer

variable {σ φ : Type} {explorer : Explorer σ φ} {events : List Event} {decisions : Nat}

/-- Completing the event before a decision summarises only what was recorded. -/
theorem Underway.completePrevious_accounts (h : explorer.Underway events decisions)
    (hcounter : explorer.counter ≤ decisions)
    (haccounts : explorer.knowledge.Accounts explorer.knowledge.summary) :
    ∃ later created, explorer.completePrevious =
        ({ explorer with knowledge := later }, .ok created) ∧
      explorer.knowledge.Calls later ∧ later.Accounts later.summary := by
  refine completePrevious_induction explorer ⟨.refl _, haccounts⟩ fun place hplace => ?_
  obtain ⟨transition, htaken⟩ := h.taken_of_previousPlace? hcounter hplace
  have hgrounded : explorer.knowledge.Grounded := h.coherent.taken_of_predecessor
  exact hgrounded.eventCompleted_accounts htaken haccounts _

/-- Weighing the states just entered summarises only what was recorded, since the place of the last
decision is known to lead into them. -/
theorem Underway.weighed_accounts (h : explorer.Underway events decisions)
    (hcounter : explorer.counter ≤ decisions)
    (hleads : ∀ place, explorer.previousPlace? = some place →
      ∀ state ∈ explorer.visits.recent, place ∈ explorer.knowledge.predecessors.of state)
    (haccounts : explorer.knowledge.Accounts explorer.knowledge.summary) :
    ∃ later, explorer.weighed = { explorer with knowledge := later } ∧
      explorer.knowledge.Calls later ∧ later.Accounts later.summary := by
  have hgrounded : explorer.knowledge.Grounded := h.coherent.taken_of_predecessor
  obtain ⟨between, created, hcompleted, hbetween⟩ :=
    h.completePrevious_accounts hcounter haccounts
  obtain ⟨later, ended, hlater, hlast, -⟩ := hasNothingNew_induction
    { explorer with knowledge := between }
    (motive := fun knowledge => explorer.knowledge.Calls knowledge ∧
      knowledge.Accounts knowledge.summary) hbetween
    fun place hplace state hstate knowledge hkept => by
      obtain ⟨hcalls, hkept⟩ := hkept
      have hthere : place ∈ knowledge.predecessors.of state := by
        rw [hcalls.predecessors_eq]
        exact hleads place hplace state hstate
      obtain ⟨last, more, hrevisited, hthen, hlast⟩ :=
        (hcalls.grounded hgrounded).stateRevisited_accounts hthere hkept explorer.schedule.order
      exact ⟨last, more, hrevisited, hcalls.trans hthen, hlast⟩
  exact ⟨later, by simp only [weighed, hcompleted, hlater], hlast⟩

/-- Recording a decision takes nothing back. -/
theorem Underway.keeps_noted (h : explorer.Underway events explorer.counter) (view : HostView σ)
    (point : PointId) (event : Event) :
    explorer.knowledge.Keeps (explorer.noted view point event).knowledge where
  taken _ _ := h.taken?_noted_of_taken? view point event
  footprint place recorded hrecorded := by
    rw [footprint?_noted]
    exact hrecorded
  predecessor state place hplace := mem_predecessors_noted.mpr (Or.inl hplace)

/-- Nor does moving on, and nothing is summarised or recorded then. -/
theorem moveOn_keeps (explorer : Explorer σ φ) (view : HostView σ) (point : DecisionPoint) :
    let later := (explorer.moveOn view point).explorer.knowledge
    explorer.knowledge.Keeps later ∧ later.summary = explorer.knowledge.summary := by
  unfold moveOn
  cases explorer.knowledge.backlog.pop? with
  | none => exact ⟨.of_eq rfl rfl, rfl⟩
  | some popped =>
    obtain ⟨next, backlog⟩ := popped
    dsimp only
    split
    · exact ⟨.of_eq rfl rfl, rfl⟩
    · refine ⟨⟨fun place transition htaken => ?_, fun place recorded hrecorded => ?_,
        fun _ _ => id⟩, rfl⟩
      · exact (explorer.taken?_restarted next backlog place).trans htaken
      · exact (explorer.footprint?_restarted next backlog place).trans hrecorded

/-- Accesses are observed at the place of the last decision; nothing is taken back if nothing was
recorded there before. -/
theorem Underway.keeps_observed [AccessFilter φ] (h : explorer.Underway events decisions)
    (hblank : explorer.knowledge.log.footprint? ⟨explorer.current, explorer.counter - 1⟩ = none)
    (accesses : List Access) :
    explorer.knowledge.Keeps (explorer.observed accesses).knowledge where
  taken place transition htaken := (explorer.taken?_observed accesses place).trans htaken
  footprint place recorded hrecorded := by
    obtain ⟨execution, hget, -⟩ := h.made
    rw [footprint?_observed hget, if_neg]
    · exact hrecorded
    · rintro ⟨rfl, -⟩
      exact absurd (hblank.symm.trans hrecorded) (by simp)
  predecessor _ _ := id

/-- Entering a state takes nothing back and summarises nothing. -/
theorem stateEntered_keeps (hreducing : explorer.reducing = true) (state : StateId) :
    let later := (explorer.stateEntered state).knowledge
    explorer.knowledge.Keeps later ∧ later.summary = explorer.knowledge.summary := by
  obtain ⟨hlog, hsummary⟩ :
      (explorer.stateEntered state).knowledge.log = explorer.knowledge.log ∧
        (explorer.stateEntered state).knowledge.summary = explorer.knowledge.summary := by
    obtain ⟨predecessors, hentered⟩ := explorer.stateEntered_eq hreducing state
    rw [hentered]
    exact ⟨rfl, rfl⟩
  exact ⟨⟨fun _ _ htaken => by rwa [hlog], fun _ _ hrecorded => by rwa [hlog],
    fun _ _ hplace => mem_predecessors_stateEntered_of_mem hplace⟩, hsummary⟩

end Explorer

namespace Search

variable {search : Search} {point : DecisionPoint} {waiting taken : List BacktrackPoint}
  {done : List (ExecutionId × Firing)} {due : Event}

/-- Between two turns all that is recorded, and so all that is summarised, comes from the events
executed so far. -/
structure Sourced (search : Search) (done : List (ExecutionId × Firing)) : Prop where
  /-- What is summarised was recorded downstream. -/
  accounts : search.explorer.knowledge.Accounts search.explorer.knowledge.summary
  /-- What is recorded was recorded of an event executed. -/
  recorded : search.explorer.knowledge.RecordedIn done

/-- Weighing a decision takes nothing back and records nothing, and it leaves the summary accounted
for. -/
theorem Sourced.weighed (h : search.Sourced done)
    (hunderway : search.Underway point waiting taken) (hdue : due ∈ search.code.events)
    (hat : search.explorer.schedule.eventAt? search.explorer.counter = some due) :
    search.explorer.knowledge.Keeps (search.weighed point).knowledge ∧
      (search.weighed point).knowledge.Accounts (search.weighed point).knowledge.summary ∧
        (search.weighed point).knowledge.RecordedIn done := by
  cases hmatches : search.matchesState with
  | true =>
    obtain ⟨later, created, hcompleted, hcalls, hlater⟩ :=
      hunderway.explorer.completePrevious_accounts (Nat.le_refl _) h.accounts
    simp only [Search.weighed, hmatches, if_true, hcompleted]
    refine ⟨hcalls.keeps, hlater, h.recorded.mono hcalls.keeps fun place recorded hplace => ?_⟩
    rwa [hcalls.log_eq] at hplace
  | false =>
    have hnoted := hunderway.explorer.noted search.machine.view point.id hdue
    have hkept := hunderway.explorer.keeps_noted search.machine.view point.id due
    have hleads (place : TransitionRef)
        (hprevious : search.explorer.previousPlace? = some place) (state : StateId)
        (hstate : state ∈ search.explorer.visits.recent) :
        place ∈ (search.explorer.noted search.machine.view point.id
          due).knowledge.predecessors.of state := by
      -- the state just entered is the machine's, and the last place is recorded to lead there
      refine Explorer.mem_predecessors_noted.mpr (Or.inr ⟨?_, hprevious⟩)
      have hcounter : search.explorer.counter ≠ 0 := by
        intro hzero
        simp [Explorer.previousPlace?, hzero] at hprevious
      rw [hunderway.recent, if_neg hcounter] at hstate
      have hsame : search.machine.state = state := by simpa using hstate
      exact hsame.symm
    obtain ⟨later, hweighed, hcalls, hlater⟩ :=
      hnoted.weighed_accounts (Nat.le_succ _) hleads (h.accounts.mono hkept)
    have hthen := hkept.trans hcalls.keeps
    simp only [Search.weighed, hmatches, Bool.false_eq_true, if_false, hat, hweighed]
    refine ⟨hthen, hlater, h.recorded.mono hthen fun place recorded hplace => ?_⟩
    rwa [hcalls.log_eq, Explorer.footprint?_noted] at hplace

/-- Observing accesses of the due event takes nothing back and summarises nothing, nor does entering
a state then. -/
private theorem Underway.keeps_observing (h : search.Underway point waiting taken)
    (hdue : due ∈ search.code.events) (hrecorded : search.matchesState = false)
    (hweighs : search.Weighs point due (search.weighed point)) (accesses : List Access)
    (state : StateId) :
    let observing :=
      ((search.weighed point).proceeded search.machine.state due).observed accesses
    (search.weighed point).knowledge.Keeps observing.knowledge ∧
      (search.weighed point).knowledge.Keeps (observing.stateEntered state).knowledge ∧
        (observing.stateEntered state).knowledge.summary =
          (search.weighed point).knowledge.summary := by
  obtain ⟨hgoing, hcounter, hblank, -⟩ := h.going hdue hrecorded hweighs
  have hobserved := hgoing.keeps_observed hblank accesses
  obtain ⟨hentered, hsummary⟩ := Explorer.stateEntered_keeps
    (hgoing.observed hcounter (Nat.le_refl _) accesses).reducing state
  exact ⟨hobserved, hobserved.trans hentered, hsummary⟩

/-- Executing the due event records accesses of this event only. -/
theorem Sourced.advanced (h : search.Sourced done) (hunderway : search.Underway point waiting taken)
    (hdue : due ∈ search.code.events)
    (hat : search.explorer.schedule.eventAt? search.explorer.counter = some due)
    (hrecorded : search.matchesState = false)
    (hweighs : search.Weighs point due (search.weighed point)) :
    (search.advanced point due).Sourced
      (done ++ [((search.advanced point due).explorer.current, ⟨search.machine.state, due⟩)]) := by
  obtain ⟨-, haccounts, -⟩ := h.weighed hunderway hdue hat
  obtain ⟨hcurrent, -, -, -, htaken⟩ := hunderway.advanced_same hdue hrecorded hweighs
  obtain ⟨-, hthen, hsummary⟩ := hunderway.keeps_observing hdue hrecorded hweighs
    (search.accesses point.id due) (search.stepped due).state
  refine ⟨hsummary ▸ haccounts.mono hthen, fun place recorded hplace => ?_⟩
  rw [hunderway.footprint?_advanced hdue hrecorded hweighs] at hplace
  rw [htaken, hcurrent]
  split at hplace
  · rename_i hhere
    exact ⟨_, if_pos hhere.1, by simp [hhere.1]⟩
  · obtain ⟨transition, hold, hdone⟩ := h.recorded place recorded hplace
    refine ⟨transition, ?_, List.mem_append_left _ hdone⟩
    rw [if_neg (hunderway.explorer.ne_of_taken? hold)]
    exact hold

/-- A restart records nothing and executes nothing. -/
theorem Sourced.restartedAt (h : search.Sourced done)
    (hunderway : search.Underway point waiting taken) (hdue : due ∈ search.code.events)
    (hat : search.explorer.schedule.eventAt? search.explorer.counter = some due)
    (next : BacktrackPoint) (rest : Backlog) (values : Values) (isNew : Bool)
    (closed : List PointId) :
    (search.restartedAt (search.weighed point) next rest values isNew closed).Sourced done := by
  obtain ⟨-, haccounts, hdone⟩ := h.weighed hunderway hdue hat
  have htaken := (search.weighed point).taken?_restarted next rest
  have hfootprint := (search.weighed point).footprint?_restarted next rest
  have hkept : (search.weighed point).knowledge.Keeps
      ((search.weighed point).restarted next rest).knowledge :=
    ⟨fun place _ => (htaken place).trans, fun place _ => (hfootprint place).trans, fun _ _ => id⟩
  exact ⟨haccounts.mono hkept,
    hdone.mono hkept fun place recorded => (hfootprint place).symm.trans⟩

/-- All that a reduced search records comes from the events executed so far. -/
theorem Ready.sourced (h : search.Ready point waiting taken) (hsourced : search.adopt.Sourced [])
    {later : Search} {next : DecisionPoint}
    (hperforms : Performs Search.decide search point done later next) :
    later.adopt.Sourced done := by
  induction hperforms with
  | start => exact hsourced
  | @fired done between last rest point firing hperforms hturn ih =>
    obtain ⟨waiting, taken, hready⟩ := h.of_reaches hperforms.reaches
    have hturns := hready.turn
    rw [hturn] at hturns
    cases hturns with
    | fired hdue hat hrecorded hweighs hnew hafter =>
      rw [hafter.adopt_eq]
      exact ih.advanced hready.underway hdue hat hrecorded hweighs
  | moved hperforms hturn ih =>
    obtain ⟨waiting, taken, hready⟩ := h.of_reaches hperforms.reaches
    have hturns := hready.turn
    rw [hturn] at hturns
    cases hturns with
    | moved hdue hat hweighs hover hpop hschedule hafter hadopt hlater =>
      rw [hadopt]
      exact ih.restartedAt hready.underway hdue hat _ _ _ _ _

/-- At every moment of a turn the summary comes from the events executed before it. -/
theorem Sourced.summaryFrom (h : search.adopt.Sourced done)
    (hready : search.Ready point waiting taken) {explorer : Explorer Values PatternFilter}
    (hpasses : search.Passes point explorer) : explorer.knowledge.SummaryFrom done := by
  obtain ⟨due, hdue, hat, hweighs, hconsults⟩ := hready.underway.consults
  obtain ⟨hkept, haccounts, hdone⟩ := h.weighed hready.underway hdue hat
  rw [hready.consult_adopt] at hconsults
  cases hpasses with
  | begins =>
    have hfrom := h.accounts.summaryFrom h.recorded (.of_eq rfl rfl) rfl
    rwa [search.knowledge_adopt] at hfrom
  | consulted hasks =>
    cases hconsults with
    | proceeds hrecorded houtcome hexplorer hid hcurrent =>
      rw [hexplorer]
      exact haccounts.summaryFrom hdone (.of_eq rfl rfl) rfl
    | @movesOn houtcome last hknowledge =>
      obtain ⟨hthen, hsummary⟩ :=
        (search.adopt.weighed point).moveOn_keeps search.adopt.machine.view last
      rw [← hknowledge] at hthen hsummary
      exact haccounts.summaryFrom hdone hthen hsummary
  | @observing other hgoes seen rest hseen =>
    cases hconsults with
    | movesOn houtcome => exact absurd hgoes.2.1 houtcome
    | proceeds hrecorded houtcome hexplorer hid hcurrent =>
      obtain rfl : due = other := Option.some.inj (hcurrent.symm.trans hgoes.2.2)
      rw [hid] at hseen
      rw [hexplorer, hready.underway.foldl_observed hdue hrecorded hweighs hseen]
      exact haccounts.summaryFrom hdone
        (hready.underway.keeps_observing hdue hrecorded hweighs _ .split).1 rfl
  | @entered other hgoes =>
    cases hconsults with
    | movesOn houtcome => exact absurd hgoes.2.1 houtcome
    | proceeds hrecorded houtcome hexplorer hid hcurrent =>
      obtain rfl : due = other := Option.some.inj (hcurrent.symm.trans hgoes.2.2)
      have hfold := hready.underway.foldl_observed hdue hrecorded hweighs
        (List.append_nil (search.adopt.observations point.id due)).symm
      simp only [accept, execute, hexplorer, hid]
      rw [show Instruction.observationsOfAll search.code.declarations point.id (.event point.id)
        (search.code.body due) = search.adopt.observations point.id due from rfl, hfold]
      obtain ⟨-, hthen, hsummary⟩ := hready.underway.keeps_observing hdue hrecorded hweighs
        ((search.adopt.observations point.id due).filterMap (·.access))
        (Machine.moveTo _ _).state
      exact haccounts.summaryFrom hdone hthen hsummary

/-- A reduced search starts with nothing recorded and nothing summarised. -/
private theorem sourced_registered (program : Program) (config : ExploreConfig) :
    (registered program config).knowledge.Accounts (registered program config).knowledge.summary ∧
      (registered program config).knowledge.RecordedIn [] := by
  refine ⟨fun state event footprint hentry => ?_, fun place recorded hplace => ?_⟩
  · exact absurd hentry (by
      simp [registered, Explorer.start, Knowledge.empty, Summary.get?, Summary.empty])
  · exact absurd ((footprint?_registered program config place).symm.trans hplace) (by simp)

/-- Without events nothing is summarised at any moment. -/
private theorem summaryFrom_of_no_events {program : Program} {config : ExploreConfig} {limit : Nat}
    (hstart : start program config limit = .ok search) (hevents : program.events = [])
    (done : List (ExecutionId × Firing)) :
    search.registerPoint.1.explorer.knowledge.SummaryFrom done := by
  rw [registerPoint_start_of_plain hstart (Or.inr hevents)]
  obtain ⟨-, rfl⟩ := start_eq_ok_iff.mp hstart
  intro state event footprint hentry
  exact absurd hentry (by
    simp [initial, Explorer.start, Knowledge.empty, Summary.get?, Summary.empty])

/-- At every moment of a reduced search, and at its end, whatever is summarised at a state was
recorded downstream of it while an event was executed before, and every event that something is
summarised for was executed before. -/
theorem summary_from_executions {program : Program} {config : ExploreConfig} {limit : Nat}
    (hstart : start program config limit = .ok search) (hreduce : config.stateReduction = true) :
    (∀ done later next,
      Performs Search.decide search.registerPoint.1 search.registerPoint.2 done later next →
        ∀ explorer, later.Passes next explorer → explorer.knowledge.SummaryFrom done) ∧
    search.explore.1.explorer.knowledge.SummaryFrom search.executions := by
  by_cases hevents : program.events = []
  · have hclosed := hasMore_of_no_events hstart hevents
    refine ⟨fun done later next hperforms explorer hpasses => ?_, ?_⟩
    · obtain ⟨-, rfl, rfl⟩ := hperforms.eq_of_ended (decide_of_no_events hstart hevents)
      have hsilent : ¬search.registerPoint.1.Asks search.registerPoint.2 := by
        simp [Asks, hclosed]
      cases hpasses with
      | begins => exact summaryFrom_of_no_events hstart hevents done
      | consulted hasks => exact absurd hasks hsilent
      | observing hgoes => exact absurd hgoes.1 hsilent
      | entered hgoes => exact absurd hgoes.1 hsilent
    · rw [explorer_explore_of_no_events hstart hevents]
      exact summaryFrom_of_no_events hstart hevents _
  · have hunderway := underway_start hstart hreduce hevents
    have hsourced : search.registerPoint.1.adopt.Sourced [] := by
      rw [hunderway.adopt_eq, registerPoint_start hstart hreduce hevents]
      obtain ⟨haccounts, hrecorded⟩ := sourced_registered program config
      exact ⟨haccounts, hrecorded⟩
    have hmoments (done : List (ExecutionId × Firing)) (later : Search) (next : DecisionPoint)
        (hperforms : Performs Search.decide search.registerPoint.1 search.registerPoint.2 done later
          next) (explorer : Explorer Values PatternFilter) (hpasses : later.Passes next explorer) :
        explorer.knowledge.SummaryFrom done := by
      obtain ⟨waiting, taken, hready⟩ := hunderway.ready.of_reaches hperforms.reaches
      exact (hunderway.ready.sourced hsourced hperforms).summaryFrom hready hpasses
    obtain ⟨later, next, hperforms, hstands⟩ := search.registerPoint.1.exists_stands_takeTurns
      search.registerPoint.2 search.registerPoint.1.decisionBound
    rw [explore_eq hstart hreduce hevents]
    exact ⟨hmoments, hmoments _ later next hperforms _ hstands.passes⟩

/-- After six events it is summarised at the initial state that turning the dial writes the flag,
which that event never touches: this was recorded when a later event reset the flag. -/
theorem summary_from_executions_lookAndTurn :
    ∃ search, start lookAndTurn {} 0 = .ok search ∧
      let later := (search.registerPoint.1.takeTurns Search.decide 6 search.registerPoint.2).1
      let done := firings Search.decide 6 search.registerPoint.1 search.registerPoint.2
      done.length = 6 ∧
        ⟨.write, "flag", ⟨1⟩⟩ ∈ later.explorer.knowledge.summary.footprintAt ⟨1⟩ ⟨1⟩ ∧
          later.explorer.knowledge.SummaryFrom done := by
  have hstart : start lookAndTurn {} 0 = .ok (initial lookAndTurn {} 0) :=
    start_eq_ok_iff.mpr ⟨by decide +kernel, rfl⟩
  refine ⟨_, hstart, by decide +kernel, by decide +kernel, ?_⟩
  obtain ⟨later, next, hperforms, hstands⟩ :=
    (initial lookAndTurn {} 0).registerPoint.1.exists_stands_takeTurns
      (initial lookAndTurn {} 0).registerPoint.2 6
  exact (summary_from_executions hstart rfl).1 _ later next hperforms _ hstands.passes

end Search

end EventOrder
