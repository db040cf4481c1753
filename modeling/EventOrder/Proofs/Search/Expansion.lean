import EventOrder.Proofs.Explorer.Counting
import EventOrder.Proofs.Machine.Reachable
import EventOrder.Proofs.Search.Runs

/-!
# The exhaustive search

An exhaustive search executes every event in every state that it has numbered, or still has that to
do. Each state is put on the stack once, when it gets its number, so the search comes to an end by
itself, and the states numbered then are exactly those that can be reached.
-/

namespace EventOrder.Search

variable {search : Search} {frontier : Frontier}

/-- An exhaustive search between two turns. -/
structure Sweeps (search : Search) (frontier : Frontier) : Prop where
  /-- Nothing is reduced. -/
  reducing : search.explorer.reducing = false
  /-- The numbering is one to one. -/
  machine : search.machine.Numbered
  /-- Only reachable states are numbered. -/
  explores : search.machine.Explores search.code
  /-- The initial state is numbered. -/
  initial : search.code.initial ∈ search.machine.numbering
  /-- The state under expansion is numbered. -/
  here : frontier.values ∈ search.machine.numbering
  /-- So are the states on the stack. -/
  numbered_of_pending : ∀ values ∈ frontier.pending, values ∈ search.machine.numbering
  /-- The events still to be executed are events of the program. -/
  event_of_frontier : ∀ event ∈ frontier.events, event ∈ search.code.events
  /-- What events lead to is numbered, or they are still to be executed. -/
  closed : ∀ values ∈ search.machine.numbering, values ∈ frontier.pending ∨
    ∀ event ∈ search.code.events, search.code.next event values ∈ search.machine.numbering ∨
      values = frontier.values ∧ event ∈ frontier.events

/-- A bound on the turns that are left: each state not expanded yet takes one, and one for each
event. -/
noncomputable def toExpand (search : Search) (frontier : Frontier) : Nat :=
  (search.code.reachable.ncard - search.machine.statesSeen + frontier.pending.length) *
    (search.code.events.length + 1) + frontier.events.length

/-- Accesses are not observed when nothing is reduced. -/
private theorem foldl_accessObserved_of_not_reducing {explorer : Explorer Values PatternFilter}
    (hreducing : explorer.reducing = false) (observations : List Observation) :
    observations.foldl
      (fun explorer observation => explorer.accessObserved observation.active observation.access)
        explorer =
      explorer := by
  induction observations with
  | nil => rfl
  | cons observation observations ih =>
    have hstep : explorer.accessObserved observation.active observation.access =
        explorer := by
      simp [Explorer.accessObserved, hreducing]
    rw [List.foldl_cons, hstep, ih]

/-- Executing an event moves the machine on and is counted, when nothing is reduced. -/
theorem execute_of_not_reducing (hreducing : search.explorer.reducing = false)
    (point : PointId) (event : Event) :
    search.execute point event =
      { search with
        machine := search.machine.moveTo (search.code.next event search.machine.values)
        executed := search.executed + 1 } := by
  simp only [execute, foldl_accessObserved_of_not_reducing hreducing, Explorer.stateEntered,
    hreducing, Bool.not_false, if_true, Code.next]

/-- The search after an event was executed in the state under expansion. -/
def expanded (search : Search) (frontier : Frontier) (event : Event) : Search :=
  { search with
    machine := search.machine.moveTo (search.code.next event frontier.values)
    explorer := { search.explorer with statistics := search.explorer.statistics.count }
    executed := search.executed + 1 }

/-- What is left to do then: the state that the event leads to goes on the stack if it is new. -/
def remaining (search : Search) (frontier : Frontier) (event : Event) (events : List Event) :
    Frontier :=
  { frontier with
    events
    pending :=
      (if (search.expanded frontier event).machine.isNew then
        [search.code.next event frontier.values]
      else []) ++ frontier.pending }

/-- The search in a state taken off the stack. -/
def turnedTo (search : Search) (values : Values) (state : StateId) : Search :=
  { search with
    machine :=
      { search.machine with
        values, state, isNew := false
        nextPoint := ⟨search.machine.nextPoint.number + 1⟩ } }

/-- Executing an event in the state under expansion leads to the state that it makes of it. -/
private theorem branch_eq (hreducing : search.explorer.reducing = false) {state : StateId}
    (hstate : search.machine.numbering[frontier.values]? = some state) (event : Event)
    (events : List Event) :
    search.branch frontier event events =
      .fired ⟨state, event⟩ (search.expanded frontier event)
        (search.remaining frontier event events) := by
  have hexecuted := execute_of_not_reducing
    (show ({ search.moveTo frontier.values with
      explorer := { search.explorer with statistics := search.explorer.statistics.count } } :
        Search).explorer.reducing = false from hreducing) frontier.point.id event
  simp only [moveTo, Machine.values_moveTo, Machine.moveTo_moveTo_of_numbered hstate] at hexecuted
  have hhere : (search.machine.moveTo frontier.values).state = state := by
    rw [Machine.moveTo_of_numbered hstate]
  simp only [branch, moveTo, Explorer.choiceAdvanced_of_not_reducing hreducing, accept,
    List.foldl_nil, DecisionPoint.force, hexecuted, Machine.values_moveTo, hhere]
  rfl

/-- A turn of an exhaustive search without a limit, and what it leaves. -/
inductive Expands (search : Search) (frontier : Frontier) : Turn Frontier → Prop
  /-- The next event is executed in the state under expansion. -/
  | fired {event : Event} {events : List Event} (hevents : frontier.events = event :: events)
      {state : StateId} (hstate : search.machine.numbering[frontier.values]? = some state)
      (hafter : (search.expanded frontier event).Sweeps
        (search.remaining frontier event events)) :
      Expands search frontier
        (.fired ⟨state, event⟩ (search.expanded frontier event)
          (search.remaining frontier event events))
  /-- The next state is taken off the stack, with all events still to be executed in it. -/
  | moved (hevents : frontier.events = []) {values : Values} {pending : List Values}
      (hpending : frontier.pending = values :: pending) {state : StateId} {point : DecisionPoint}
      (hafter : (search.turnedTo values state).Sweeps
        ⟨point, values, search.code.events, pending⟩) :
      Expands search frontier
        (.moved (search.turnedTo values state) ⟨point, values, search.code.events, pending⟩)
  /-- Nothing is left to do. -/
  | complete (hevents : frontier.events = []) (hpending : frontier.pending = []) :
      Expands search frontier (.ended search (.ok .complete))

/-- Executing an event leaves the states numbered that were, numbers the one it leads to, and puts
this one on the stack if it is new. -/
private theorem Sweeps.expanded (h : search.Sweeps frontier) {event : Event} {events : List Event}
    (hevents : frontier.events = event :: events) :
    (search.expanded frontier event).Sweeps (search.remaining frontier event events) := by
  have hevent : event ∈ search.code.events := h.event_of_frontier event (by simp [hevents])
  obtain ⟨state, hstate⟩ := Option.isSome_iff_exists.mp
    (Std.ExtTreeMap.mem_iff_isSome_getElem?.mp h.here)
  have hreachable : search.code.Reachable (search.code.next event frontier.values) :=
    (h.explores _ _ hstate).step hevent
  have hmem (values : Values) :
      values ∈ (search.expanded frontier event).machine.numbering ↔
        values = search.code.next event frontier.values ∨ values ∈ search.machine.numbering :=
    search.machine.mem_numbering_moveTo
  have hclosed (values : Values) (hvalues : values ∈ search.machine.numbering) :
      values ∈ frontier.pending ∨ ∀ other ∈ search.code.events,
        search.code.next other values ∈ (search.expanded frontier event).machine.numbering ∨
          values = frontier.values ∧ other ∈ events := by
    rcases h.closed values hvalues with hpending | hexpanded
    · exact Or.inl hpending
    · refine Or.inr fun other hother => ?_
      rcases hexpanded other hother with hdone | ⟨rfl, hdue⟩
      · exact Or.inl ((hmem _).mpr (Or.inr hdone))
      · rcases List.mem_cons.mp (hevents ▸ hdue) with rfl | hlater
        · exact Or.inl ((hmem _).mpr (Or.inl rfl))
        · exact Or.inr ⟨rfl, hlater⟩
  refine
    { reducing := h.reducing, machine := (h.machine.settled_moveTo _).toNumbered,
      explores := h.explores.moveTo hreachable, initial := (hmem _).mpr (Or.inr h.initial),
      here := (hmem _).mpr (Or.inr h.here), numbered_of_pending := ?_,
      event_of_frontier := ?_, closed := ?_ }
  · intro values hvalues
    rcases List.mem_append.mp hvalues with hfound | hpending
    · split at hfound
      · exact (hmem _).mpr (Or.inl (List.mem_singleton.mp hfound))
      · exact absurd hfound List.not_mem_nil
    · exact (hmem _).mpr (Or.inr (h.numbered_of_pending values hpending))
  · intro other hother
    exact h.event_of_frontier other (hevents ▸ List.mem_cons_of_mem event hother)
  · intro values hvalues
    by_cases hold : values ∈ search.machine.numbering
    · exact (hclosed values hold).imp_left (List.mem_append_right _)
    · have hsame := ((hmem values).mp hvalues).resolve_right hold
      have hnew : (search.expanded frontier event).machine.isNew = true :=
        (search.machine.isNew_moveTo_iff_notMem _).mpr (hsame ▸ hold)
      refine Or.inl (List.mem_append_left _ ?_)
      rw [if_pos hnew, hsame]
      exact List.mem_cons_self

/-- All events are still to be executed in a state taken off the stack. -/
private theorem Sweeps.turnedTo (h : search.Sweeps frontier) (hevents : frontier.events = [])
    {values : Values} {pending : List Values} (hpending : frontier.pending = values :: pending)
    (state : StateId) (point : DecisionPoint) :
    (search.turnedTo values state).Sweeps ⟨point, values, search.code.events, pending⟩ := by
  refine
    { reducing := h.reducing, machine := ⟨h.machine.inRange, h.machine.injective⟩,
      explores := h.explores, initial := h.initial,
      here := h.numbered_of_pending values (by simp [hpending]),
      numbered_of_pending := fun other hother =>
        h.numbered_of_pending other (by simp [hpending, show other ∈ pending from hother]),
      event_of_frontier := fun _ hevent => hevent, closed := ?_ }
  intro other hother
  rcases h.closed other hother with hmem | hexpanded
  · rcases List.mem_cons.mp (hpending ▸ hmem) with rfl | hmem
    · exact Or.inr fun event hevent => Or.inr ⟨rfl, hevent⟩
    · exact Or.inl hmem
  · refine Or.inr fun event hevent => Or.inl ?_
    rcases hexpanded event hevent with hdone | ⟨-, hdue⟩
    · exact hdone
    · simp [hevents] at hdue

/-- What a turn of an exhaustive search comes to that may execute the events that are left. -/
theorem Sweeps.turn_of_open (h : search.Sweeps frontier)
    (hopen : frontier.events ≠ [] → search.atLimit = false) :
    search.Expands frontier (search.expand frontier) := by
  cases hevents : frontier.events with
  | cons event events =>
    have hbelow := hopen (by simp [hevents])
    obtain ⟨state, hstate⟩ := Option.isSome_iff_exists.mp
      (Std.ExtTreeMap.mem_iff_isSome_getElem?.mp h.here)
    have hturn : search.expand frontier = .fired ⟨state, event⟩ (search.expanded frontier event)
        (search.remaining frontier event events) := by
      simp only [expand, hevents, hbelow, Bool.false_eq_true, if_false,
        branch_eq h.reducing hstate]
    rw [hturn]
    exact .fired hevents hstate (h.expanded hevents)
  | nil =>
    cases hpending : frontier.pending with
    | cons values pending =>
      obtain ⟨state, hstate⟩ := Option.isSome_iff_exists.mp
        (Std.ExtTreeMap.mem_iff_isSome_getElem?.mp
          (h.numbered_of_pending values (by simp [hpending])))
      have hturn : search.expand frontier = .moved (search.turnedTo values state)
          ⟨.start search.machine.nextPoint search.code.events, values, search.code.events,
            pending⟩ := by
        simp only [expand, hevents, hpending, expandNext, moveTo, openPoint,
          Machine.moveTo_of_numbered hstate]
        rfl
      rw [hturn]
      exact .moved hevents hpending (h.turnedTo hevents hpending state _)
    | nil =>
      have hturn : search.expand frontier = .ended search (.ok .complete) := by
        simp only [expand, hevents, hpending, expandNext]
      rw [hturn]
      exact .complete hevents hpending

/-- What a turn of an exhaustive search without a limit comes to. -/
theorem Sweeps.turn (h : search.Sweeps frontier) (hlimit : search.limit = 0) :
    search.Expands frontier (search.expand frontier) :=
  h.turn_of_open fun _ => by simp [atLimit, hlimit]

/-- How many states are still to be expanded: those without a number yet, and those on the stack. -/
noncomputable def toVisit (search : Search) (frontier : Frontier) : Nat :=
  search.code.reachable.ncard - search.machine.statesSeen + frontier.pending.length

/-- Executing an event leaves as many states to be expanded: one that gets its number goes on the
stack. -/
theorem Sweeps.toVisit_expanded {event : Event} {events : List Event}
    (hafter : (search.expanded frontier event).Sweeps (search.remaining frontier event events)) :
    (search.expanded frontier event).toVisit (search.remaining frontier event events) =
      search.toVisit frontier := by
  have hbound : (search.expanded frontier event).machine.statesSeen ≤
      search.code.reachable.ncard := hafter.explores.statesSeen_le
  have hseen : (search.expanded frontier event).machine.statesSeen =
      search.machine.statesSeen + (search.expanded frontier event).machine.isNew.toNat :=
    search.machine.statesSeen_moveTo _
  have hpending : (search.remaining frontier event events).pending.length =
      (search.expanded frontier event).machine.isNew.toNat + frontier.pending.length := by
    simp only [remaining, List.length_append]
    cases (search.expanded frontier event).machine.isNew <;> rfl
  rw [hseen] at hbound
  simp only [toVisit, hseen, hpending, show (search.expanded frontier event).code = search.code
    from rfl]
  omega

/-- Each turn leaves fewer turns. -/
private theorem Expands.toExpand_lt {turn : Turn Frontier} (h : search.Expands frontier turn) :
    match turn with
    | .fired _ next after => next.toExpand after < search.toExpand frontier
    | .moved next after => next.toExpand after < search.toExpand frontier
    | .ended _ _ => True := by
  cases h with
  | @fired event events hevents state hstate hafter =>
    have hvisit := hafter.toVisit_expanded
    have hcode : (search.expanded frontier event).code = search.code := rfl
    have hleft : (search.remaining frontier event events).events = events := rfl
    simp only [toVisit, hcode] at hvisit
    simp only [toExpand, hcode, hleft, hvisit, hevents, List.length_cons]
    omega
  | @moved hevents values pending hpending state point hafter =>
    have hstates : (search.turnedTo values state).machine.statesSeen =
        search.machine.statesSeen := rfl
    have hcode : (search.turnedTo values state).code = search.code := rfl
    simp only [toExpand, hevents, hpending, hstates, hcode, List.length_cons, List.length_nil]
    rw [← Nat.add_assoc, Nat.succ_mul]
    omega
  | complete => trivial

/-- With no state left on the stack, exactly the reachable states are numbered. -/
theorem Sweeps.mem_numbering_iff (h : search.Sweeps frontier)
    (hevents : frontier.events = []) (hpending : frontier.pending = []) (values : Values) :
    values ∈ search.machine.numbering ↔ search.code.Reachable values := by
  constructor
  · intro hvalues
    obtain ⟨state, hstate⟩ := Option.isSome_iff_exists.mp
      (Std.ExtTreeMap.mem_iff_isSome_getElem?.mp hvalues)
    exact h.explores values state hstate
  · intro hreachable
    induction hreachable with
    | initial => exact h.initial
    | step _ hevent ih =>
      rcases h.closed _ ih with hmem | hexpanded
      · simp [hpending] at hmem
      · rcases hexpanded _ hevent with hdone | ⟨-, hdue⟩
        · exact hdone
        · simp [hevents] at hdue

/-- An exhaustive search without a limit runs to its end, and numbers the reachable states. -/
theorem Sweeps.completes (h : search.Sweeps frontier) (hlimit : search.limit = 0) {turns : Nat}
    (hturns : search.toExpand frontier < turns) :
    ∃ final, search.takeTurns expand turns frontier = (final, .ok .complete) ∧
      ∀ values, values ∈ final.machine.numbering ↔ search.code.Reachable values := by
  induction turns generalizing search frontier with
  | zero => exact absurd hturns (Nat.not_lt_zero _)
  | succ turns ih =>
    have hturn := h.turn hlimit
    have hless := hturn.toExpand_lt
    simp only [takeTurns]
    generalize search.expand frontier = turn at hturn hless
    cases hturn with
    | fired _ _ hafter =>
      exact ih hafter hlimit (Nat.lt_of_lt_of_le hless (Nat.le_of_lt_succ hturns))
    | moved _ _ hafter =>
      exact ih hafter hlimit (Nat.lt_of_lt_of_le hless (Nat.le_of_lt_succ hturns))
    | complete hevents hpending => exact ⟨search, rfl, h.mem_numbering_iff hevents hpending⟩

/-- A search that is not to be reduced, or whose program has no events, reduces nothing once its
first decision point is registered. -/
theorem registerPoint_start_of_plain {program : Program} {config : ExploreConfig} {limit : Nat}
    (hstart : start program config limit = .ok search)
    (hplain : config.stateReduction = false ∨ program.events = []) :
    search.registerPoint.1 =
      { search with
        machine := search.openPoint.1.machine
        explorer := { search.explorer with offersSeen := true, reducing := false } } := by
  obtain ⟨-, rfl⟩ := start_eq_ok_iff.mp hstart
  have hreducing : (config.stateReduction && !program.code.events.isEmpty) = false := by
    rcases hplain with hreduce | hevents
    · simp [hreduce]
    · simp [events_code, hevents, Event.firstEvents]
  have hregistered : (initial program config limit).openPoint.1.explorer.pointRegistered
        (initial program config limit).openPoint.2 =
      ({ (initial program config limit).explorer with offersSeen := true, reducing := false },
        (initial program config limit).openPoint.2) := by
    simp [Explorer.pointRegistered, initial, Explorer.start, openPoint, Machine.openPoint,
      DecisionPoint.start, hreducing]
  simp only [registerPoint, hregistered]
  rfl

/-- What an exhaustive search has to do at first: its state is on the stack. -/
def outset (search : Search) (point : DecisionPoint) : Frontier :=
  ⟨point, search.machine.values, [], [search.machine.values]⟩

/-- The turns that a search is given for its program are enough. -/
private theorem toExpand_lt_expansionBound (hmachine : search.machine.Numbered)
    (hexplores : search.machine.Explores search.code) {values : Values}
    (hvalues : values ∈ search.machine.numbering) (point : DecisionPoint) (here : Values) :
    search.toExpand ⟨point, here, [], [values]⟩ < search.expansionBound := by
  obtain ⟨state, hstate⟩ := Option.isSome_iff_exists.mp
    (Std.ExtTreeMap.mem_iff_isSome_getElem?.mp hvalues)
  have hrange := hmachine.inRange values state hstate
  have hseen := hexplores.statesSeen_le
  have hevents : search.code.events.length = search.code.bodies.length := by
    simp [Code.events, Event.firstEvents]
  have hstates : search.code.reachable.ncard - search.machine.statesSeen + 1 ≤
      search.stateBound := by
    have hreachable : search.code.reachable.ncard ≤ search.stateBound :=
      search.code.ncard_reachable_le
    omega
  have hproduct := Nat.mul_le_mul_right (search.code.bodies.length + 1) hstates
  simp only [toExpand, expansionBound, List.length_singleton, List.length_nil, hevents]
  omega

/-- The exhaustive search of a program starts with the initial state to be expanded. -/
theorem sweeps_start {program : Program} {config : ExploreConfig} {limit : Nat}
    (hstart : start program config limit = .ok search)
    (hplain : config.stateReduction = false ∨ program.events = []) (point : DecisionPoint) :
    search.registerPoint.1.Sweeps (search.registerPoint.1.outset point) := by
  rw [registerPoint_start_of_plain hstart hplain]
  obtain ⟨-, rfl⟩ := start_eq_ok_iff.mp hstart
  have hsettled := Machine.settled_start program.code.initial
  have hvalues : (Machine.start program.code.initial).values = program.code.initial :=
    Machine.values_start program.code.initial
  have hmem (values : Values) : values ∈ (Machine.start program.code.initial).numbering ↔
      values = program.code.initial := Machine.mem_numbering_start
  exact
    { reducing := rfl, machine := ⟨hsettled.inRange, hsettled.injective⟩,
      explores := Machine.explores_start program.code, initial := (hmem _).mpr rfl,
      here := (hmem _).mpr hvalues,
      numbered_of_pending := fun values hpending =>
        (hmem values).mpr ((List.mem_singleton.mp hpending).trans hvalues),
      event_of_frontier := fun event hevent => absurd hevent List.not_mem_nil,
      closed := fun values hnumbered =>
        Or.inl (List.mem_singleton.mpr (((hmem values).mp hnumbered).trans hvalues.symm)) }

/-- A search that has nothing to reduce runs the turns that its number of states allows. -/
theorem explore_of_plain {program : Program} {config : ExploreConfig} {limit : Nat}
    (hstart : start program config limit = .ok search)
    (hplain : config.stateReduction = false ∨ program.events = []) :
    search.explore = search.registerPoint.1.takeTurns expand search.registerPoint.1.expansionBound
      (search.registerPoint.1.outset search.registerPoint.2) := by
  have hreducing := (sweeps_start hstart hplain search.registerPoint.2).reducing
  simp only [explore, hreducing, Bool.false_eq_true, if_false, exhaustive, outset]

/-- A search without events to execute observes nothing, and numbers nothing if the values that it
is to come back to have numbers. -/
private theorem takeTurns_expand_of_no_events {frontier : Frontier}
    (hevents : search.code.events = []) (hfrontier : frontier.events = [])
    (hpending : ∀ values ∈ frontier.pending,
      ∃ state : StateId, search.machine.numbering[values]? = some state) (turns : Nat) :
    (search.takeTurns expand turns frontier).1.explorer = search.explorer ∧
      (search.takeTurns expand turns frontier).1.machine.numbering =
        search.machine.numbering := by
  induction turns generalizing search frontier with
  | zero => exact ⟨rfl, rfl⟩
  | succ turns ih =>
    simp only [takeTurns, expand, hfrontier]
    cases hstack : frontier.pending with
    | nil => exact ⟨rfl, rfl⟩
    | cons values pending =>
      rw [hstack] at hpending
      obtain ⟨state, hstate⟩ := hpending values List.mem_cons_self
      have hsame : (search.moveTo values).openPoint.1.machine.numbering =
          search.machine.numbering := by
        simp only [openPoint, Machine.openPoint, moveTo, Machine.moveTo_of_numbered hstate]
      have hcode : (search.moveTo values).openPoint.1.code.events = [] := hevents
      rw [← hsame]
      refine ih hcode hevents fun others hothers => ?_
      obtain ⟨other, hother⟩ := hpending others (List.mem_cons_of_mem _ hothers)
      exact ⟨other, hsame ▸ hother⟩

/-- So the search of a program without events leaves the explorer as it was, and the numbers. -/
private theorem unchanged_of_no_events {program : Program} {config : ExploreConfig} {limit : Nat}
    (hstart : start program config limit = .ok search) (hevents : program.events = []) :
    search.explore.1.explorer = search.registerPoint.1.explorer ∧
      search.explore.1.machine.numbering = search.registerPoint.1.machine.numbering := by
  have hsweeps := sweeps_start hstart (Or.inr hevents) search.registerPoint.2
  have hnone : search.registerPoint.1.code.events = [] := by
    rw [registerPoint_start_of_plain hstart (Or.inr hevents)]
    obtain ⟨-, rfl⟩ := start_eq_ok_iff.mp hstart
    simp [initial, events_code, hevents, Event.firstEvents]
  rw [explore_of_plain hstart (Or.inr hevents)]
  refine takeTurns_expand_of_no_events hnone rfl (fun values hvalues => ?_) _
  exact Option.isSome_iff_exists.mp
    (Std.ExtTreeMap.mem_iff_isSome_getElem?.mp (hsweeps.numbered_of_pending values hvalues))

/-- The search of a program without events leaves the explorer as it was. -/
theorem explorer_explore_of_no_events {program : Program} {config : ExploreConfig} {limit : Nat}
    (hstart : start program config limit = .ok search) (hevents : program.events = []) :
    search.explore.1.explorer = search.registerPoint.1.explorer :=
  (unchanged_of_no_events hstart hevents).1

/-- It numbers no other state. -/
theorem numbering_explore_of_no_events {program : Program} {config : ExploreConfig} {limit : Nat}
    (hstart : start program config limit = .ok search) (hevents : program.events = []) :
    search.explore.1.machine.numbering = search.registerPoint.1.machine.numbering :=
  (unchanged_of_no_events hstart hevents).2

/-- Without events there is nothing to decide. -/
theorem hasMore_of_no_events {program : Program} {config : ExploreConfig} {limit : Nat}
    (hstart : start program config limit = .ok search) (hevents : program.events = []) :
    search.registerPoint.2.hasMore = false := by
  obtain ⟨-, rfl⟩ := start_eq_ok_iff.mp hstart
  have hnone : program.code.events = [] := by simp [events_code, hevents, Event.firstEvents]
  simp [initial, registerPoint, openPoint, Machine.openPoint, Explorer.pointRegistered,
    Explorer.start, DecisionPoint.start, DecisionPoint.hasMore, hnone]

/-- A program without events comes to no decision. -/
theorem decide_of_no_events {program : Program} {config : ExploreConfig} {limit : Nat}
    (hstart : start program config limit = .ok search) (hevents : program.events = []) :
    search.registerPoint.1.decide search.registerPoint.2 =
      .ended search.registerPoint.1 (.ok .complete) := by
  simp [Search.decide, hasMore_of_no_events hstart hevents]

/-- So its search executes nothing. -/
theorem executions_of_no_events {program : Program} {config : ExploreConfig} {limit : Nat}
    (hstart : start program config limit = .ok search) (hevents : program.events = []) :
    search.executions = [] := by
  simp only [executions]
  cases search.registerPoint.1.decisionBound with
  | zero => rfl
  | succ turns => simp only [firings, decide_of_no_events hstart hevents]

/-- A search that has nothing to reduce and no limit runs to its end. The states numbered then are
those that events lead to from the initial one. -/
theorem explore_numbers_reachable {program : Program} {config : ExploreConfig}
    (hstart : start program config 0 = .ok search)
    (hplain : config.stateReduction = false ∨ program.events = []) :
    ∃ final, search.explore = (final, .ok .complete) ∧
      ∀ values, values ∈ final.machine.numbering ↔ program.code.Reachable values := by
  have hsweeps := sweeps_start hstart hplain search.registerPoint.2
  have hbound := toExpand_lt_expansionBound hsweeps.machine hsweeps.explores hsweeps.here
    search.registerPoint.2 search.registerPoint.1.machine.values
  rw [explore_of_plain hstart hplain]
  obtain ⟨-, rfl⟩ := start_eq_ok_iff.mp hstart
  exact hsweeps.completes rfl hbound

/-- The exhaustive search of a program without a limit runs to its end. The states numbered then
are those that events lead to from the initial one. -/
theorem exhaustive_numbers_reachable {program : Program} {config : ExploreConfig}
    (hstart : start program config 0 = .ok search) (hreduce : config.stateReduction = false) :
    ∃ final, search.explore = (final, .ok .complete) ∧
      ∀ values, values ∈ final.machine.numbering ↔ program.code.Reachable values :=
  explore_numbers_reachable hstart (Or.inl hreduce)

end EventOrder.Search
