import EventOrder.Proofs.Explorer.Poised
import EventOrder.Proofs.Search.Runs

/-!
# Moments of a reduced search

A run of turns is followed together with the events that it executes. Within a turn the explorer is
first consulted; if it lets the event go ahead, the accesses of the event are observed one by one
and then the state is entered that the event leads to. What is said of every moment of a run is said
of the explorer between any two of these calls.
-/

namespace EventOrder.Search

variable {κ : Type}

/-- The configurations that turns lead to from a configuration, with the events executed on the
way, each with its state and with the execution that it was executed in. -/
inductive Performs (turn : Search → κ → Turn κ) (search : Search) (next : κ) :
    List (ExecutionId × Firing) → Search → κ → Prop
  | start : Performs turn search next [] search next
  | fired {done : List (ExecutionId × Firing)} {later last : Search} {between rest : κ}
      {firing : Firing} (hperforms : Performs turn search next done later between)
      (hturn : turn later between = .fired firing last rest) :
      Performs turn search next (done ++ [(last.explorer.current, firing)]) last rest
  | moved {done : List (ExecutionId × Firing)} {later last : Search} {between rest : κ}
      (hperforms : Performs turn search next done later between)
      (hturn : turn later between = .moved last rest) :
      Performs turn search next done last rest

/-- What is performed is reached. -/
theorem Performs.reaches {turn : Search → κ → Turn κ} {search later : Search} {next rest : κ}
    {done : List (ExecutionId × Firing)} (h : Performs turn search next done later rest) :
    Reaches turn search next later rest := by
  induction h with
  | start => exact .start
  | fired _ hturn ih => exact ih.fired hturn
  | moved _ hturn ih => exact ih.moved hturn

/-- Nothing is performed when the first turn ends the search. -/
theorem Performs.eq_of_ended {turn : Search → κ → Turn κ} {search later last : Search}
    {next rest : κ} {done : List (ExecutionId × Firing)}
    {outcome : Except ExplorationError Outcome} (h : Performs turn search next done later rest)
    (hended : turn search next = .ended last outcome) :
    done = [] ∧ later = search ∧ rest = next := by
  obtain ⟨hlater, hrest⟩ := h.reaches.eq_of_ended hended
  refine ⟨?_, hlater, hrest⟩
  induction h with
  | start => rfl
  | fired hperforms hturn ih | moved hperforms hturn ih =>
    obtain ⟨rfl, rfl⟩ := hperforms.reaches.eq_of_ended hended
    exact absurd (hturn.symm.trans hended) (by simp)

/-- The explorer is asked how to go on at a decision point. -/
def Asks (search : Search) (point : DecisionPoint) : Prop :=
  (search.machine.closed.contains point.id || !point.hasMore) = false ∧ search.atLimit = false

/-- The explorer lets an event be executed at a decision point. -/
def GoesAhead (search : Search) (point : DecisionPoint) (due : Event) : Prop :=
  search.Asks point ∧ (search.consult point).outcome = .ok .proceed ∧
    (search.consult point).point.current = some due

/-- What is observed while an event runs that was chosen at a decision point. -/
def observations (search : Search) (point : PointId) (event : Event) : List Observation :=
  Instruction.observationsOfAll search.code.declarations point (.event point)
    (search.code.body event)

/-- The explorer between two calls of a turn. -/
inductive Passes (search : Search) (point : DecisionPoint) : Explorer Values PatternFilter → Prop
  /-- The turn begins. -/
  | begins : Passes search point search.explorer
  /-- The explorer was consulted. -/
  | consulted (hasks : search.Asks point) : Passes search point (search.consult point).explorer
  /-- Some of the accesses of the event were observed. -/
  | observing {due : Event} (hgoes : search.GoesAhead point due) {seen rest : List Observation}
      (hseen : search.observations (search.consult point).point.id due = seen ++ rest) :
      Passes search point (seen.foldl
        (fun explorer observation => explorer.accessObserved observation.active observation.access)
        (search.consult point).explorer)
  /-- The state was entered that the event leads to. -/
  | entered {due : Event} (hgoes : search.GoesAhead point due) :
      Passes search point
        ((search.accept (search.consult point)).execute (search.consult point).point.id
          due).explorer

/-- A search between two calls of a turn, and the events of the turn that were executed before. -/
inductive Stands (search : Search) (point : DecisionPoint) :
    List (ExecutionId × Firing) → Search → Prop
  /-- The turn begins. -/
  | begins : Stands search point [] search
  /-- The explorer was consulted, and the machine did what it was asked for. -/
  | consulted (hasks : search.Asks point) :
      Stands search point [] (search.accept (search.consult point))
  /-- Some of the accesses of the event were observed. -/
  | observing {due : Event} (hgoes : search.GoesAhead point due) {seen rest : List Observation}
      (hseen : search.observations (search.consult point).point.id due = seen ++ rest) :
      Stands search point []
        { search.accept (search.consult point) with
          explorer := seen.foldl
            (fun explorer observation =>
              explorer.accessObserved observation.active observation.access)
            (search.consult point).explorer }
  /-- The state was entered that the event leads to. -/
  | entered {due : Event} (hgoes : search.GoesAhead point due) {later : Search}
      (hlater : later =
        (search.accept (search.consult point)).execute (search.consult point).point.id due) :
      Stands search point
        [(later.explorer.current, ⟨(search.accept (search.consult point)).machine.state, due⟩)]
        later

/-- A search at a moment of its reduced run: before the first decision point is registered, between
two calls of a turn, or at the end. -/
inductive Meets (search : Search) : Search → Prop
  /-- The run begins. -/
  | begins : Meets search search
  /-- A turn is taken. -/
  | within {done more : List (ExecutionId × Firing)} {later moment : Search} {next : DecisionPoint}
      (hperforms : Performs Search.decide search.registerPoint.1 search.registerPoint.2 done later
        next)
      (hstands : later.Stands next more moment) : Meets search moment
  /-- The run has ended. -/
  | ends : Meets search search.explore.1

variable {search : Search} {point : DecisionPoint} {waiting taken : List BacktrackPoint}

/-- The explorer of such a search stands at a moment of the turn. -/
theorem Stands.passes {done : List (ExecutionId × Firing)} {later : Search}
    (h : search.Stands point done later) : search.Passes point later.explorer := by
  cases h with
  | begins => exact .begins
  | consulted hasks => exact .consulted hasks
  | observing hgoes hseen => exact .observing hgoes hseen
  | entered hgoes hlater => exact hlater ▸ .entered hgoes

/-- Nothing happens in a turn in which the explorer is not asked how to go on. -/
theorem Stands.eq_of_not_asks {done : List (ExecutionId × Firing)} {later : Search}
    (h : search.Stands point done later) (hsilent : ¬search.Asks point) :
    done = [] ∧ later = search := by
  cases h with
  | begins => exact ⟨rfl, rfl⟩
  | consulted hasks => exact absurd hasks hsilent
  | observing hgoes | entered hgoes => exact absurd hgoes.1 hsilent

/-- A turn that ends the search ends it before or after the explorer was consulted. -/
private theorem stands_of_ended {last : Search} {outcome : Except ExplorationError Outcome}
    (hturn : search.decide point = .ended last outcome) : search.Stands point [] last := by
  unfold Search.decide at hturn
  split at hturn
  · obtain ⟨rfl, -⟩ := Turn.ended.inj hturn
    exact .begins
  · rename_i hopen
    split at hturn
    · obtain ⟨rfl, -⟩ := Turn.ended.inj hturn
      exact .begins
    · rename_i hlimit
      have hasks : search.Asks point := ⟨eq_false_of_ne_true hopen, eq_false_of_ne_true hlimit⟩
      dsimp only at hturn
      split at hturn
      · obtain ⟨rfl, -⟩ := Turn.ended.inj hturn
        exact .consulted hasks
      · obtain ⟨rfl, -⟩ := Turn.ended.inj hturn
        exact .consulted hasks
      · simp [restart] at hturn
      · unfold fire at hturn
        split at hturn
        · obtain ⟨rfl, -⟩ := Turn.ended.inj hturn
          exact .consulted hasks
        · simp at hturn

/-- However many turns are taken, the search that is left stands in a turn of the run, and the
events executed are those of the turns before. -/
theorem Performs.stands_takeTurns {origin : Search} {first : DecisionPoint}
    {done : List (ExecutionId × Firing)}
    (h : Performs Search.decide origin first done search point) (turns : Nat) :
    ∃ later next, Performs Search.decide origin first
        (done ++ firings Search.decide turns search point) later next ∧
      later.Stands next [] (search.takeTurns Search.decide turns point).1 := by
  induction turns generalizing search point done with
  | zero => exact ⟨search, point, by simpa [firings] using h, .begins⟩
  | succ turns ih =>
    simp only [takeTurns, firings]
    cases hturn : search.decide point with
    | fired firing later next =>
      obtain ⟨last, rest, hperforms, hstands⟩ := ih (h.fired hturn)
      exact ⟨last, rest, by simpa using hperforms, hstands⟩
    | moved later next => exact ih (h.moved hturn)
    | ended last outcome =>
      exact ⟨search, point, by simpa using h, stands_of_ended hturn⟩

/-- So it is from the start of a run on. -/
theorem exists_stands_takeTurns (search : Search) (point : DecisionPoint) (turns : Nat) :
    ∃ later next,
      Performs Search.decide search point (firings Search.decide turns search point) later next ∧
        later.Stands next [] (search.takeTurns Search.decide turns point).1 := by
  have hbegins : Performs Search.decide search point [] search point := .start
  exact hbegins.stands_takeTurns turns

/-- A run comes to what any number of its turns leaves. -/
theorem meets_takeTurns (search : Search) (turns : Nat) :
    search.Meets
      (search.registerPoint.1.takeTurns Search.decide turns search.registerPoint.2).1 := by
  obtain ⟨later, next, hperforms, hstands⟩ :=
    search.registerPoint.1.exists_stands_takeTurns search.registerPoint.2 turns
  exact .within hperforms hstands

/-- When the explorer lets an event go ahead, the turn executes it and opens the next decision
point. -/
theorem decide_of_goesAhead {due : Event} (h : search.GoesAhead point due) :
    let later :=
      (search.accept (search.consult point)).execute (search.consult point).point.id due
    search.decide point =
      .fired ⟨(search.accept (search.consult point)).machine.state, due⟩ later.registerPoint.1
        later.registerPoint.2 := by
  obtain ⟨⟨hopen, hlimit⟩, houtcome, hcurrent⟩ := h
  simp [Search.decide, hopen, hlimit, houtcome, fire, hcurrent]

/-- Opening a decision point changes nothing that is known, and gives no number. -/
theorem registerPoint_same (search : Search) :
    search.registerPoint.1.explorer.knowledge = search.explorer.knowledge ∧
      search.registerPoint.1.explorer.current = search.explorer.current ∧
        search.registerPoint.1.machine.numbering = search.machine.numbering := by
  obtain ⟨reducing, offersSeen, schedule, lastEvent, events, hregistered⟩ :=
    search.explorer.pointRegistered_same search.openPoint.2
  have hexplorer : search.registerPoint.1.explorer =
      { search.explorer with reducing, offersSeen, schedule, lastEvent, events } := hregistered
  rw [hexplorer]
  exact ⟨rfl, rfl, rfl⟩

/-- What the explorer answers to a decision that is due for an event. -/
inductive Consults (search : Search) (point : DecisionPoint) (due : Event)
    (reply : Reply Values PatternFilter) : Prop
  /-- The event is to be executed. -/
  | proceeds (hrecorded : search.matchesState = false) (houtcome : reply.outcome = .ok .proceed)
      (hexplorer : reply.explorer = (search.weighed point).proceeded search.machine.state due)
      (hid : reply.point.id = point.id) (hcurrent : reply.point.current = some due)
  /-- The execution is over. -/
  | movesOn (houtcome : reply.outcome ≠ .ok .proceed) {last : DecisionPoint}
      (hknowledge : reply.explorer.knowledge =
        ((search.weighed point).moveOn search.machine.view last).explorer.knowledge)

/-- A path that the host ends itself moves on. -/
private theorem Underway.consults_of_matchesState (h : search.Underway point waiting taken)
    (hmatches : search.matchesState = true) (due : Event) :
    search.Weighs point due (search.weighed point) ∧
      search.Consults point due (search.consult point) := by
  obtain ⟨later, created, hcompleted, hlearns⟩ := h.explorer.completePrevious_eq (Nat.le_refl _)
  have hweighed : search.weighed point = { search.explorer with knowledge := later } := by
    simp only [Search.weighed, hmatches, if_true, hcompleted]
  have hreduces : ¬(!search.explorer.reducing) = true := by simp [h.explorer.reducing]
  refine ⟨hweighed ▸ .matched hmatches hlearns, ?_⟩
  rw [← hweighed] at hcompleted
  simp only [consult, hmatches, if_true, Explorer.pathMatched, if_neg hreduces, hcompleted]
  have hmoves := (search.weighed point).outcome_moveOn_ne_proceed search.machine.view point
  split
  · exact .movesOn hmoves rfl
  · exact .movesOn hmoves rfl

/-- A decision that the host leaves to the explorer goes ahead, or the explorer moves on. -/
private theorem Underway.consults_of_not_matchesState (h : search.Underway point waiting taken)
    (hmatches : search.matchesState = false) {due : Event} (hdue : due ∈ search.code.events)
    (hat : search.explorer.schedule.eventAt? search.explorer.counter = some due) :
    search.Weighs point due (search.weighed point) ∧
      search.Consults point due (search.consult point) := by
  have hid : (point.advance.2.force due).id = point.id := id_advance point
  obtain ⟨later, ended, heq, hlearns, hdecide, -⟩ :=
    h.explorer.decide_eq search.machine.view (point.advance.2.force due) hdue
  rw [hid] at heq hlearns hdecide
  have hweighed : search.weighed point =
      (search.explorer.noted search.machine.view point.id due).weighed := by
    simp [Search.weighed, hmatches, hat]
  rw [← hweighed] at heq hdecide
  refine ⟨heq ▸ .recorded hmatches hlearns, ?_⟩
  rw [consult_eq_decide h hat hmatches, hdecide]
  cases ended || search.explorer.atMaxDepth with
  | false => exact .proceeds hmatches rfl rfl hid rfl
  | true =>
    simp only [Explorer.conclude, if_true]
    have hmoves := (search.weighed point).outcome_moveOn_ne_proceed search.machine.view
      (point.advance.2.force due)
    split
    · exact .movesOn hmoves rfl
    · exact .movesOn hmoves rfl

/-- While an execution is under way the explorer lets the event go ahead that is due, or it moves
on. -/
theorem Underway.consults (h : search.Underway point waiting taken) :
    ∃ due ∈ search.code.events,
      search.explorer.schedule.eventAt? search.explorer.counter = some due ∧
        search.Weighs point due (search.weighed point) ∧
          search.Consults point due (search.consult point) := by
  obtain ⟨due, hdue, hat⟩ := h.explorer.eventAt?_isSome search.explorer.counter
  refine ⟨due, hdue, hat, ?_⟩
  cases hmatches : search.matchesState with
  | true => exact h.consults_of_matchesState hmatches due
  | false => exact h.consults_of_not_matchesState hmatches hdue hat

/-- Once a decision went ahead its execution is under way, its decision point stands at the place of
the decision, and nothing is recorded there yet. -/
theorem Underway.going (h : search.Underway point waiting taken)
    {due : Event} (hdue : due ∈ search.code.events) (hrecorded : search.matchesState = false)
    (hweighs : search.Weighs point due (search.weighed point)) :
    let going := (search.weighed point).proceeded search.machine.state due
    going.Underway search.code.events going.counter ∧ 0 < going.counter ∧
      going.knowledge.log.footprint? ⟨going.current, going.counter - 1⟩ = none ∧
        ∃ execution, going.knowledge.log.get? going.current = some execution ∧
          execution.positionOf? point.id = some (going.counter - 1) := by
  generalize search.weighed point = weighed at hweighs
  cases hweighs with
  | matched hmatches => exact absurd hmatches (by simp [hrecorded])
  | @recorded later _ hlearns =>
    have hnoted := h.explorer.noted search.machine.view point.id hdue
    obtain ⟨execution, hget, hmade⟩ := h.explorer.made
    refine ⟨(hnoted.learn hlearns).proceeded search.machine.state due, Nat.succ_pos _, ?_, ?_⟩
    · change later.log.footprint? ⟨search.explorer.current, search.explorer.counter⟩ = none
      rw [hlearns.log_eq, Explorer.footprint?_noted]
      exact h.explorer.footprint?_eq_none (Nat.le_refl _)
    · change ∃ execution, later.log.get? search.explorer.current = some execution ∧ _
      rw [hlearns.log_eq, Explorer.get?_noted hget]
      exact ⟨_, rfl, (hmade.take _).positionOf?_mapPoint _ _⟩

/-- Accesses of the due event are recorded at the place of its decision, also when only some of them
were observed yet. -/
theorem Underway.foldl_observed (h : search.Underway point waiting taken)
    {due : Event} (hdue : due ∈ search.code.events) (hrecorded : search.matchesState = false)
    (hweighs : search.Weighs point due (search.weighed point)) {seen rest : List Observation}
    (hseen : search.observations point.id due = seen ++ rest) :
    seen.foldl
        (fun explorer observation => explorer.accessObserved observation.active observation.access)
        ((search.weighed point).proceeded search.machine.state due) =
      ((search.weighed point).proceeded search.machine.state due).observed
        (seen.filterMap (·.access)) := by
  obtain ⟨hgoing, hcounter, -, hposition⟩ := h.going hdue hrecorded hweighs
  refine Explorer.foldl_accessObserved hgoing.reducing hgoing.ended hcounter hposition seen
    fun observation hmem => ?_
  have hobserved : observation ∈ search.observations point.id due :=
    hseen.symm ▸ List.mem_append_left rest hmem
  exact active_of_observationsOfAll (Or.inl rfl) (search.code.body due) observation hobserved

end EventOrder.Search
