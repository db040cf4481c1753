import EventOrder.Proofs.Explorer.Journeys
import EventOrder.Proofs.Search.Expansion
import EventOrder.Proofs.Search.Termination

/-!
# Races that a complete search leaves

When a state is entered, the place that led there is raced by every event that is summarised in it.
Either the state is new to the round, and nothing is summarised in it yet, or it is replayed against
the place before the search goes on. So a complete search has answered every race, except where a
walk stranded an access, and except at the place that was first recorded as leading back into the
initial state: the search does not count the initial state as entered when it sets out from there.
-/

namespace EventOrder

namespace Visits

/-- The state was entered in the round. -/
def Entered (visits : Visits) (state : StateId) : Prop :=
  visits.isEarlier state = true ∨ 0 < visits.counts[state]?.getD 0

/-- The state was entered in the round before the host came to where it is. -/
def Met (visits : Visits) (here state : StateId) : Prop :=
  visits.isEarlier state = true ∨
    (if state = here then 1 else 0) < visits.counts[state]?.getD 0

variable {visits : Visits} {here state : StateId}

/-- A state that was met was entered. -/
theorem Met.entered (h : visits.Met here state) : visits.Entered state :=
  h.imp_right fun hcount => Nat.lt_of_le_of_lt (Nat.zero_le _) hcount

/-- Entering a state counts it, unless it is a state of an earlier execution. -/
private theorem count_enter (visits : Visits) (here state : StateId) :
    (visits.enter here).counts[state]?.getD 0 = visits.counts[state]?.getD 0 +
      if visits.isEarlier here = false ∧ state = here then 1 else 0 := by
  cases hearlier : visits.isEarlier here with
  | true => simp [enter, hearlier]
  | false =>
    by_cases hstate : here = state
    · subst hstate
      simp [enter, hearlier]
    · have hne : ¬state = here := fun heq => hstate heq.symm
      simp [enter, hearlier, hstate, hne, Std.ExtTreeMap.getElem?_insert]

/-- A state that was entered is met once the host comes to another, or to the same again. -/
theorem Entered.enter (h : visits.Entered state) (here : StateId) :
    (visits.enter here).Met here state := by
  unfold Met
  rw [count_enter]
  rcases h with hearlier | hcount
  · exact Or.inl hearlier
  · by_cases hstate : state = here
    · subst hstate
      cases hearlier : visits.isEarlier state with
      | true => exact Or.inl hearlier
      | false => exact Or.inr (by simpa using hcount)
    · exact Or.inr (by simpa [hstate] using hcount)

/-- The state that the host comes to is entered. -/
theorem entered_enter (visits : Visits) (here : StateId) : (visits.enter here).Entered here := by
  unfold Entered
  rw [count_enter]
  cases hearlier : visits.isEarlier here with
  | true => exact Or.inl hearlier
  | false => exact Or.inr (by simp)

/-- A state that was entered is a state of an earlier execution in the next one. -/
theorem Entered.insertMany (h : visits.Entered state) :
    state ∈ visits.earlier.insertMany visits.counts.keys := by
  rcases h with hearlier | hpositive
  · exact Std.ExtTreeSet.mem_insertMany_list.mpr
      (Or.inl (Std.ExtTreeSet.contains_iff_mem.mp hearlier))
  · have hcounted : state ∈ visits.counts := by
      rw [Std.ExtTreeMap.mem_iff_isSome_getElem?]
      cases hcount : visits.counts[state]? with
      | none => simp [hcount] at hpositive
      | some count => rfl
    simp [hcounted]

end Visits

/-- The races that are left open: those of stranded accesses, and those at the place that was first
recorded as leading back into the initial state. -/
def LeftOpen (lost : List Stranded) (initial : StateId) (predecessors : Predecessors)
    (state : StateId) (event : Event) (access : Access) (place : TransitionRef) : Prop :=
  ⟨state, event, access, place⟩ ∈ lost ∨
    state = initial ∧ (predecessors.of initial).head? = some place

namespace Search

/-- The walks made at a decision. -/
def decisionJourneys (search : Search) (point : DecisionPoint) : List Journey :=
  if search.matchesState then search.explorer.completions
  else
    match search.explorer.schedule.eventAt? search.explorer.counter with
    | some event => (search.explorer.noted search.machine.view point.id event).journeys
    | none => []

/-- The walks made in so many turns of a reduced search. -/
def journeys : Nat → Search → DecisionPoint → List Journey
  | 0, _, _ => []
  | turns + 1, search, point =>
    match search.decide point with
    | .fired _ later next => search.adopt.decisionJourneys point ++ journeys turns later next
    | .moved later next => search.adopt.decisionJourneys point ++ journeys turns later next
    | .ended _ (.ok .limitReached) => []
    | .ended _ _ => search.adopt.decisionJourneys point

/-- What the walks of the reduced search of a program strand. -/
def stranded (search : Search) : List Stranded :=
  let (search, point) := search.registerPoint
  (search.journeys search.decisionBound point).flatMap Journey.stranded

/-- The state is where the search set out, or it was entered before the machine came to where it
is. -/
def Known (search : Search) (initial state : StateId) : Prop :=
  state = initial ∨ search.explorer.visits.Met search.machine.state state

variable {search : Search} {point : DecisionPoint} {waiting taken : List BacktrackPoint}
  {lost : List Stranded} {initial : StateId}

/-- Every race is answered when the machine comes to a state, except for those left open and those
at the place that led there. -/
structure Answering (search : Search) (lost : List Stranded) (initial : StateId) : Prop where
  /-- Races are answered, or left open, or wait for the machine's state to be weighed. -/
  answers : search.explorer.knowledge.Answers (search.Known initial)
    fun state event access place =>
      LeftOpen lost initial search.explorer.knowledge.predecessors state event access place ∨
        state = search.machine.state ∧ search.explorer.previousPlace? = some place
  /-- Snapshots were taken of known states only. -/
  known_of_snapshot : ∀ state ∈ search.explorer.snapshots, search.Known initial state
  /-- The machine's state was entered, unless the search has just set out. -/
  entered : search.machine.state = initial ∧ search.explorer.counter = 0 ∨
    search.explorer.visits.Entered search.machine.state
  /-- Places lead into states that were met, except for the place that led to where the machine
  is. -/
  met_of_lead : ∀ state, ∀ place ∈ search.explorer.knowledge.predecessors.of state,
    search.explorer.visits.Met search.machine.state state ∨
      state = search.machine.state ∧ search.explorer.previousPlace? = some place

/-- A place stays the first that leads back into the initial state. -/
theorem LeftOpen.mono {predecessors later : Predecessors} {state : StateId} {event : Event}
    {access : Access} {place : TransitionRef}
    (h : LeftOpen lost initial predecessors state event access place)
    (hfirst : ∀ first, (predecessors.of initial).head? = some first →
      (later.of initial).head? = some first) :
    LeftOpen lost initial later state event access place :=
  h.imp_right fun hinitial => ⟨hinitial.1, hfirst place hinitial.2⟩

/-- After a decision the machine's state counts as entered, or the search had just set out. -/
theorem Answering.entered_of_lead (h : search.Answering lost initial) {state : StateId}
    {place : TransitionRef} (hplace : place ∈ search.explorer.knowledge.predecessors.of state ∨
      state = search.machine.state ∧ search.explorer.previousPlace? = some place) :
    search.explorer.visits.Entered state := by
  have hhere (hstate : state = search.machine.state)
      (hprevious : search.explorer.previousPlace? = some place) :
      search.explorer.visits.Entered state := by
    rcases h.entered with ⟨-, hcounter⟩ | hentered
    · simp [Explorer.previousPlace?, hcounter] at hprevious
    · exact hstate ▸ hentered
  rcases hplace with hold | ⟨hstate, hprevious⟩
  · rcases h.met_of_lead state place hold with hmet | ⟨hstate, hprevious⟩
    · exact hmet.entered
    · exact hhere hstate hprevious
  · exact hhere hstate hprevious

section Decision

variable {due : Event}

/-- Recording a decision changes what is recorded at its own place only. -/
private theorem Underway.agreesOutside_noted (h : search.Underway point waiting taken)
    (due : Event) :
    search.explorer.knowledge.AgreesOutside
      (search.explorer.noted search.machine.view point.id due).knowledge
      ⟨search.explorer.current, search.explorer.counter⟩ where
  summary_eq := rfl
  constructed_eq := rfl
  taken?_eq place hplace := by rw [h.explorer.taken?_noted, if_neg hplace]
  footprint?_eq place _ := search.explorer.footprint?_noted search.machine.view point.id due place

/-- A place of an earlier decision was taken in a known state. -/
private theorem Answering.known_of_taken (h : search.Answering lost initial)
    (hunderway : search.Underway point waiting taken) {place : TransitionRef}
    {transition : Transition}
    (htaken : search.explorer.knowledge.log.taken? place = some transition) :
    place ≠ ⟨search.explorer.current, search.explorer.counter⟩ ∧
      search.Known initial transition.state := by
  have hsnapshot := hunderway.explorer.snapshot_of_taken _ _ htaken
  exact ⟨hunderway.explorer.ne_of_taken? htaken, h.known_of_snapshot _ hsnapshot⟩

/-- The place of the decision before was taken in a known state. -/
private theorem Answering.known_of_previousPlace? (h : search.Answering lost initial)
    (hunderway : search.Underway point waiting taken) {place : TransitionRef}
    (hprevious : search.explorer.previousPlace? = some place) :
    ∃ transition, search.explorer.knowledge.log.taken? place = some transition ∧
      place ≠ ⟨search.explorer.current, search.explorer.counter⟩ ∧
        search.Known initial transition.state := by
  obtain ⟨transition, htaken⟩ :=
    hunderway.explorer.taken_of_previousPlace? (Nat.le_refl _) hprevious
  exact ⟨transition, htaken, h.known_of_taken hunderway htaken⟩

/-- Recording a decision makes races only at the place before it. -/
private theorem Answering.noted (h : search.Answering lost initial)
    (hunderway : search.Underway point waiting taken) (due : Event) :
    (search.explorer.noted search.machine.view point.id due).knowledge.Answers
      (search.Known initial) fun state event access place =>
        LeftOpen lost initial
            (search.explorer.noted search.machine.view point.id due).knowledge.predecessors state
            event access place ∨
          state = search.machine.state ∧ search.explorer.previousPlace? = some place := by
  have hagrees := hunderway.agreesOutside_noted due
  refine h.answers.of_agreesOutside hagrees (fun _ hknown => hknown) ?_ ?_
  · rintro state event access place (hopen | hhere)
    · exact Or.inl (LeftOpen.mono hopen fun first => Explorer.head?_predecessors_noted)
    · exact Or.inr hhere
  · intro state place hplace
    rcases Explorer.mem_predecessors_noted.mp hplace with hold | hhere
    · obtain ⟨transition, htaken⟩ :=
        hunderway.explorer.coherent.taken_of_predecessor state place hold
      exact Or.inl ⟨hold, (h.known_of_taken hunderway htaken).1⟩
    · obtain ⟨transition, htaken, helse, hknown⟩ := h.known_of_previousPlace? hunderway hhere.2
      refine Or.inr ⟨fun _ _ => Or.inr hhere, fun other hother => ?_⟩
      rw [hagrees.taken?_eq place helse] at hother
      exact Option.some.inj (htaken.symm.trans hother) ▸ hknown

/-- A state that was entered before and holds something to be raced is replayed; otherwise the place
that led there is the first one that leads back into the initial state. -/
private theorem Answering.replayed (h : search.Answering lost initial) (due : Event)
    (hknown : search.Known initial search.machine.state) {place : TransitionRef}
    (hprevious : search.explorer.previousPlace? = some place) :
    0 < search.explorer.replaysOf search.machine.state ∨
      ∀ event access, LeftOpen lost initial
        (search.explorer.noted search.machine.view point.id due).knowledge.predecessors
        search.machine.state event access place := by
  by_cases hmet : search.explorer.visits.Met search.machine.state search.machine.state
  · left
    rcases hmet with hearlier | hcount
    · have hmatched : search.explorer.isMatched search.machine.state = true := by
        simp [Explorer.isMatched, hearlier]
      simp only [Explorer.replaysOf, hmatched, Bool.toNat_true]
      omega
    · have hrepeated : search.explorer.visits.isRepeated search.machine.state = true := by
        simpa [Visits.isRepeated] using hcount
      simp [Explorer.replaysOf, hrepeated]
  · right
    have hinitial : search.machine.state = initial := hknown.resolve_right hmet
    have hleads : place ∈ (search.explorer.noted search.machine.view point.id
        due).knowledge.predecessors.of initial :=
      Explorer.mem_predecessors_noted.mpr (Or.inr ⟨hinitial.symm, hprevious⟩)
    refine fun event access => Or.inr ⟨hinitial, ?_⟩
    cases hplaces : (search.explorer.noted search.machine.view point.id
        due).knowledge.predecessors.of initial with
    | nil => exact absurd (hplaces ▸ hleads) List.not_mem_nil
    | cons first places =>
      have hfirst : first ∈ (search.explorer.noted search.machine.view point.id
          due).knowledge.predecessors.of initial := by simp [hplaces]
      rw [List.head?_cons]
      rcases Explorer.mem_predecessors_noted.mp hfirst with hold | ⟨-, hnew⟩
      · rcases h.met_of_lead initial first hold with hstate | ⟨-, hsame⟩
        · exact absurd (hinitial ▸ hstate) hmet
        · exact hsame.symm.trans hprevious
      · exact hnew.symm.trans hprevious

/-- When the host matched its state nothing is summarised there, so there is nothing to race. -/
private theorem Answering.weighed_of_matchesState (h : search.Answering lost initial)
    (hunderway : search.Underway point waiting taken) (hmatches : search.matchesState = true)
    (hcovered : Journey.Covered search.explorer.completions
      (LeftOpen lost initial search.explorer.knowledge.predecessors)) :
    ∃ later created, search.explorer.completePrevious =
        ({ search.explorer with knowledge := later }, .ok created) ∧
      search.explorer.knowledge.Calls later ∧
        later.Answers (search.Known initial)
          (LeftOpen lost initial search.explorer.knowledge.predecessors) := by
  have hopen : search.explorer.knowledge.Answers (search.Known initial)
      (LeftOpen lost initial search.explorer.knowledge.predecessors) := by
    refine h.answers.refine ?_
    rintro state event access place earlier hrace (hopen | ⟨rfl, -⟩)
    · exact hopen
    · have hcontains := Summary.containsState_of_mem hrace.summarised
      simp [matchesState, hcontains] at hmatches
  refine Explorer.completePrevious_answers search.explorer
    hunderway.explorer.coherent.taken_of_predecessor (fun place hprevious => ?_) hopen hcovered
  obtain ⟨transition, htaken, -, hknown⟩ := h.known_of_previousPlace? hunderway hprevious
  exact ⟨transition, htaken, hknown⟩

/-- When the decision was recorded, the state just entered is replayed if need be. -/
private theorem Answering.weighed_of_noted (h : search.Answering lost initial)
    (hunderway : search.Underway point waiting taken) (hdue : due ∈ search.code.events)
    (hcovered : Journey.Covered (search.explorer.noted search.machine.view point.id due).journeys
      (LeftOpen lost initial
        (search.explorer.noted search.machine.view point.id due).knowledge.predecessors)) :
    ∃ later, (search.explorer.noted search.machine.view point.id due).weighed =
        { search.explorer.noted search.machine.view point.id due with knowledge := later } ∧
      (search.explorer.noted search.machine.view point.id due).knowledge.Calls later ∧
        later.Answers (search.Known initial) (LeftOpen lost initial
          (search.explorer.noted search.machine.view point.id due).knowledge.predecessors) := by
  have hnoted := hunderway.explorer.noted search.machine.view point.id hdue
  refine Explorer.weighed_answers _ hnoted.coherent.taken_of_predecessor hunderway.recent
    (fun place hprevious => ?_) (h.noted hunderway due)
    (fun hknown place hprevious => h.replayed due hknown hprevious) hcovered
  obtain ⟨transition, htaken, helse, hknown⟩ := h.known_of_previousPlace? hunderway hprevious
  exact ⟨transition, ((hunderway.agreesOutside_noted due).taken?_eq place helse).trans htaken,
    hknown⟩

/-- Once a decision is weighed, only the races left open are not answered. -/
theorem Answering.weighed (h : search.Answering lost initial)
    (hunderway : search.Underway point waiting taken) (hdue : due ∈ search.code.events)
    (hat : search.explorer.schedule.eventAt? search.explorer.counter = some due)
    (hlost : ∀ journey ∈ search.decisionJourneys point, ∀ left ∈ journey.stranded,
      left ∈ lost) :
    (search.weighed point).knowledge.Answers (search.Known initial)
      (LeftOpen lost initial (search.weighed point).knowledge.predecessors) := by
  have hcovered (predecessors : Predecessors) :
      Journey.Covered (search.decisionJourneys point) (LeftOpen lost initial predecessors) :=
    fun journey hjourney left hleft => Or.inl (hlost journey hjourney left hleft)
  unfold Search.weighed
  unfold decisionJourneys at hcovered
  cases hmatches : search.matchesState with
  | true =>
    simp only [hmatches, if_true] at hcovered ⊢
    obtain ⟨later, created, hcompleted, hcalls, hlater⟩ :=
      h.weighed_of_matchesState hunderway hmatches (hcovered _)
    rw [hcompleted]
    exact hcalls.predecessors_eq.symm ▸ hlater
  | false =>
    simp only [hmatches, Bool.false_eq_true, if_false, hat] at hcovered ⊢
    obtain ⟨later, hweighed, hcalls, hlater⟩ := h.weighed_of_noted hunderway hdue (hcovered _)
    rw [hweighed]
    exact hcalls.predecessors_eq.symm ▸ hlater

variable {weighed : Explorer Values PatternFilter}

/-- Once a decision is weighed, places of earlier decisions lead into states that were entered. -/
private theorem Answering.entered_of_weighs (h : search.Answering lost initial)
    (hunderway : search.Underway point waiting taken) (hweighs : search.Weighs point due weighed)
    {state : StateId} {place : TransitionRef}
    (hplace : place ∈ weighed.knowledge.predecessors.of state) :
    place ≠ ⟨search.explorer.current, search.explorer.counter⟩ ∧
      search.explorer.visits.Entered state := by
  have hleads : place ∈ search.explorer.knowledge.predecessors.of state ∨
      state = search.machine.state ∧ search.explorer.previousPlace? = some place := by
    cases hweighs with
    | matched _ hlearns =>
      simp only [hlearns.predecessors_eq] at hplace
      exact Or.inl hplace
    | recorded _ hlearns =>
      simp only [hlearns.predecessors_eq] at hplace
      exact Explorer.mem_predecessors_noted.mp hplace
  have htaken : ∃ transition, search.explorer.knowledge.log.taken? place = some transition := by
    rcases hleads with hold | ⟨-, hprevious⟩
    · exact hunderway.explorer.coherent.taken_of_predecessor state place hold
    · exact hunderway.explorer.taken_of_previousPlace? (Nat.le_refl _) hprevious
  obtain ⟨transition, htaken⟩ := htaken
  exact ⟨(h.known_of_taken hunderway htaken).1, h.entered_of_lead hleads⟩

/-- Once a decision is weighed, snapshots were taken only of states that were entered and of the
initial one. -/
private theorem Answering.known_of_weighs (h : search.Answering lost initial)
    (hweighs : search.Weighs point due weighed) {state : StateId}
    (hsnapshot : state ∈ weighed.snapshots) :
    state = initial ∨ search.explorer.visits.Entered state := by
  have hold (hkept : state ∈ search.explorer.snapshots) :
      state = initial ∨ search.explorer.visits.Entered state :=
    (h.known_of_snapshot state hkept).imp_right Visits.Met.entered
  cases hweighs with
  | matched => exact hold hsnapshot
  | recorded =>
    have hnoted : state ∈ (search.explorer.noted search.machine.view point.id due).snapshots :=
      hsnapshot
    rcases Explorer.mem_snapshots_noted.mp hnoted with rfl | hkept
    · exact h.entered.imp_left And.left
    · exact hold hkept

/-- Executing the due event changes what is recorded at its own place only. -/
private theorem Underway.agreesOutside_advanced (h : search.Underway point waiting taken)
    (hdue : due ∈ search.code.events) (hweighs : search.Weighs point due (search.weighed point)) :
    (search.weighed point).knowledge.AgreesOutside (search.advanced point due).explorer.knowledge
      ⟨search.explorer.current, search.explorer.counter⟩ := by
  have hweighed := h.weighed hdue hweighs
  obtain ⟨decisions, -, -, hunderway⟩ := hweighed.underway
  obtain ⟨execution, hget, -⟩ := (hunderway.proceeded search.machine.state due).made
  obtain ⟨predecessors, heq⟩ :=
    (((search.weighed point).proceeded search.machine.state due).observed
      (search.accesses point.id due)).stateEntered_eq hunderway.reducing (search.stepped due).state
  rw [show (search.advanced point due).explorer = _ from heq]
  refine ⟨rfl, rfl, fun place _ => Explorer.taken?_observed _ _ place, fun place hplace => ?_⟩
  refine (Explorer.footprint?_observed hget (search.accesses point.id due) place).trans
    (if_neg fun hhere => hplace ?_)
  rw [hhere.1]
  simp only [Explorer.proceeded, hweighed.same.1, hweighed.same.2.1, Nat.add_sub_cancel]

/-- The place of the last decision once the due event was executed. -/
private theorem Underway.previousPlace?_advanced (h : search.Underway point waiting taken)
    (hdue : due ∈ search.code.events) (hrecorded : search.matchesState = false)
    (hweighs : search.Weighs point due (search.weighed point)) :
    (search.advanced point due).explorer.previousPlace? =
      some ⟨search.explorer.current, search.explorer.counter⟩ := by
  obtain ⟨hcurrent, hcounter, -⟩ := h.advanced_same hdue hrecorded hweighs
  simp [Explorer.previousPlace?, hcounter, hcurrent]

/-- Starting over changes nothing of what is recorded. -/
private theorem agreesOutside_restarted {next : BacktrackPoint} {rest : Backlog}
    (hpop : weighed.knowledge.backlog.pop? = some (next, rest)) (place : TransitionRef) :
    weighed.knowledge.AgreesOutside (weighed.restarted next rest).knowledge place where
  summary_eq := rfl
  constructed_eq := Backlog.constructed_of_pop? hpop
  taken?_eq other _ := weighed.taken?_restarted next rest other
  footprint?_eq other _ := weighed.footprint?_restarted next rest other

/-- Executing the due event makes races only at its own place, in the state that it leads to. -/
theorem Answering.advanced (h : search.Answering lost initial)
    (hunderway : search.Underway point waiting taken) (hdue : due ∈ search.code.events)
    (hrecorded : search.matchesState = false)
    (hweighs : search.Weighs point due (search.weighed point))
    (hanswers : (search.weighed point).knowledge.Answers (search.Known initial)
      (LeftOpen lost initial (search.weighed point).knowledge.predecessors)) :
    (search.advanced point due).Answering lost initial := by
  obtain ⟨-, -, -, hvisits, htaken⟩ := hunderway.advanced_same hdue hrecorded hweighs
  have hagrees := hunderway.agreesOutside_advanced hdue hweighs
  have hmachine : (search.advanced point due).machine = search.stepped due := rfl
  have hmet (state : StateId) (hentered : search.explorer.visits.Entered state) :
      (search.advanced point due).explorer.visits.Met (search.stepped due).state state := by
    rw [hvisits]
    exact Visits.Entered.enter hentered _
  have hknown (state : StateId)
      (hstate : state = initial ∨ search.explorer.visits.Entered state) :
      (search.advanced point due).Known initial state :=
    hstate.imp_right (hmet state)
  have hprevious := hunderway.previousPlace?_advanced hdue hrecorded hweighs
  have hfirst (first : TransitionRef)
      (hbefore : ((search.weighed point).knowledge.predecessors.of initial).head? = some first) :
      ((search.advanced point due).explorer.knowledge.predecessors.of initial).head? =
        some first :=
    Explorer.head?_predecessors_stateEntered
      (((search.weighed point).proceeded search.machine.state due).observed
        (search.accesses point.id due)) (search.stepped due).state hbefore
  refine ⟨?_, ?_, Or.inr ?_, ?_⟩
  · refine hanswers.of_agreesOutside hagrees ?_ ?_ ?_
    · exact fun state hstate => hknown state (hstate.imp_right Visits.Met.entered)
    · exact fun state event access place hopen => Or.inl (LeftOpen.mono hopen hfirst)
    · intro state place hplace
      rcases hunderway.lead_of_advanced hdue hweighs hplace with hold | ⟨hstate, hown⟩
      · exact Or.inl ⟨hold, (h.entered_of_weighs hunderway hweighs hold).1⟩
      · refine Or.inr ⟨fun _ _ => Or.inr ⟨hstate, hown ▸ hprevious⟩, fun transition hother =>
          hknown _ ?_⟩
        rw [htaken, if_pos hown] at hother
        rw [← Option.some.inj hother]
        exact h.entered.imp_left And.left
  · intro state hsnapshot
    obtain ⟨decisions, -, -, hreducing⟩ := (hunderway.weighed hdue hweighs).underway
    obtain ⟨filter, log, predecessors, heq, -⟩ :=
      search.advanced_explorer point due hreducing.reducing
    rw [heq] at hsnapshot
    exact hknown state (h.known_of_weighs hweighs hsnapshot)
  · rw [hvisits, hmachine]
    exact Visits.entered_enter _ _
  · intro state place hplace
    rcases hunderway.lead_of_advanced hdue hweighs hplace with hold | ⟨hstate, hown⟩
    · exact Or.inl (hmet state (h.entered_of_weighs hunderway hweighs hold).2)
    · exact Or.inr ⟨hstate, hown ▸ hprevious⟩

/-- Starting over makes no race: the next execution has made no decision. -/
theorem Answering.restartedAt (h : search.Answering lost initial)
    (hunderway : search.Underway point waiting taken) (hdue : due ∈ search.code.events)
    (hweighs : search.Weighs point due weighed) {next : BacktrackPoint} {rest : Backlog}
    (hpop : weighed.knowledge.backlog.pop? = some (next, rest))
    (hanswers : weighed.knowledge.Answers (search.Known initial)
      (LeftOpen lost initial weighed.knowledge.predecessors))
    (values : Values) (isNew : Bool) (closed : List PointId) :
    (search.restartedAt weighed next rest values isNew closed).Answering lost initial := by
  have hmet (state : StateId) (hentered : search.explorer.visits.Entered state) :
      (search.restartedAt weighed next rest values isNew closed).explorer.visits.Met next.state
        state := by
    obtain ⟨-, -, hvisits, -⟩ :=
      hunderway.restartedAt_same hdue hweighs next rest values isNew closed
    rw [hvisits, (hunderway.weighed hdue hweighs).same.2.2.2]
    exact Or.inl (Std.ExtTreeSet.contains_iff_mem.mpr hentered.insertMany)
  have hknown (state : StateId)
      (hstate : state = initial ∨ search.explorer.visits.Entered state) :
      (search.restartedAt weighed next rest values isNew closed).Known initial state :=
    hstate.imp_right (hmet state)
  have hagrees := agreesOutside_restarted hpop ⟨search.explorer.current, search.explorer.counter⟩
  obtain ⟨-, ⟨values, hvalues, -⟩, -⟩ := (hunderway.weighed hdue hweighs).pop? hpop
  have hsnapshot : next.state ∈ weighed.snapshots :=
    Std.ExtTreeMap.mem_iff_isSome_getElem?.mpr (Option.isSome_of_eq_some hvalues)
  refine ⟨?_, ?_, ?_, ?_⟩
  · refine hanswers.of_agreesOutside hagrees ?_ (fun _ _ _ _ => Or.inl) ?_
    · exact fun state hstate => hknown state (hstate.imp_right Visits.Met.entered)
    · exact fun state place hplace =>
        Or.inl ⟨hplace, (h.entered_of_weighs hunderway hweighs hplace).1⟩
  · exact fun state hstate => hknown state (h.known_of_weighs hweighs hstate)
  · rcases h.known_of_weighs hweighs hsnapshot with hinitial | hentered
    · exact Or.inl ⟨hinitial, rfl⟩
    · exact Or.inr (hmet _ hentered).entered
  · exact fun state place hplace =>
      Or.inl (hmet state (h.entered_of_weighs hunderway hweighs hplace).2)

end Decision

/-- At the start there is nothing to race. -/
theorem answering_start {program : Program} {config : ExploreConfig} {limit : Nat}
    (hstart : start program config limit = .ok search) (hreduce : config.stateReduction = true)
    (hevents : program.events ≠ []) (lost : List Stranded) :
    search.registerPoint.1.Answering lost search.machine.state := by
  rw [registerPoint_start hstart hreduce hevents]
  obtain ⟨-, rfl⟩ := start_eq_ok_iff.mp hstart
  have hnowhere (state : StateId) (place : TransitionRef) :
      place ∉ (registered program config).knowledge.predecessors.of state := by
    simp [registered, Explorer.start, Knowledge.empty]
  refine ⟨⟨?_, ?_, ?_⟩, ?_, Or.inl ⟨rfl, rfl⟩, ?_⟩
  · exact fun state event access place earlier hrace => absurd hrace.leads (hnowhere state place)
  · intro state hstate
    exact absurd hstate (by
      simp [registered, Explorer.start, Knowledge.empty, Summary.containsState, Summary.empty])
  · exact fun state place hplace => absurd hplace (hnowhere state place)
  · intro state hstate
    exact absurd hstate (by simp [registered, Explorer.start])
  · exact fun state place hplace => absurd hplace (hnowhere state place)

/-- When a search is complete, it leaves open only what it strands on the way and what it had left
open before. -/
theorem Ready.answers (h : search.Ready point waiting taken)
    (hanswering : search.adopt.Answering lost initial) {turns : Nat} {final : Search}
    (hlost : ∀ journey ∈ search.journeys turns point, ∀ left ∈ journey.stranded, left ∈ lost)
    (hcomplete : search.takeTurns Search.decide turns point = (final, .ok .complete)) :
    final.explorer.knowledge.Grounded ∧
      ∀ state event access place earlier,
        final.explorer.knowledge.Race state event access place earlier →
          final.explorer.knowledge.backlog.isConstructed earlier.state event = true ∨
            LeftOpen lost initial final.explorer.knowledge.predecessors state event access
              place := by
  induction turns generalizing search point waiting taken with
  | zero => simp [takeTurns] at hcomplete
  | succ turns ih =>
    have hunderway := h.underway
    have hturn := h.turn
    simp only [takeTurns, journeys] at hcomplete hlost
    generalize search.decide point = turn at hturn hcomplete hlost
    cases hturn with
    | fired hdue hat hrecorded hweighs hnew hafter =>
      have hweighed := hanswering.weighed hunderway hdue hat fun journey hjourney =>
        hlost journey (List.mem_append_left _ hjourney)
      have hlater := hanswering.advanced hunderway hdue hrecorded hweighs hweighed
      exact ih hafter.ready (hafter.adopt_eq.symm ▸ hlater)
        (fun journey hjourney => hlost journey (List.mem_append_right _ hjourney)) hcomplete
    | @moved _ hdue hat hweighs _ _ _ hpop _ values isNew closed _ _ _ _ hadopt hready =>
      have hweighed := hanswering.weighed hunderway hdue hat fun journey hjourney =>
        hlost journey (List.mem_append_left _ hjourney)
      have hlater := hanswering.restartedAt hunderway hdue hweighs hpop hweighed values isNew
        closed
      exact ih hready (hadopt ▸ hlater)
        (fun journey hjourney => hlost journey (List.mem_append_right _ hjourney)) hcomplete
    | complete hdue hat hweighs hover hpop hknowledge =>
      have hweighed := hanswering.weighed hunderway hdue hat hlost
      obtain ⟨decisions, -, -, hlast⟩ := (hunderway.weighed hdue hweighs).underway
      obtain rfl : _ = final := congrArg Prod.fst hcomplete
      rw [hknowledge]
      exact ⟨hlast.coherent.taken_of_predecessor, hweighed.answered⟩
    | stopped => simp at hcomplete

/-- The search of a program without events finds no place that leads anywhere. -/
private theorem predecessors_of_no_events {program : Program} {config : ExploreConfig} {limit : Nat}
    (hstart : start program config limit = .ok search) (hevents : program.events = [])
    (state : StateId) : search.explore.1.explorer.knowledge.predecessors.of state = [] := by
  rw [explorer_explore_of_no_events hstart hevents,
    registerPoint_start_of_plain hstart (Or.inr hevents)]
  obtain ⟨-, rfl⟩ := start_eq_ok_iff.mp hstart
  exact Predecessors.of_empty state

/-- A complete reduced search has answered a race if its access was not stranded. Only at the place
that was first recorded as leading back into the initial state a race may be left unanswered. -/
theorem races_answered {program : Program} {config : ExploreConfig} {limit : Nat} {final : Search}
    (hstart : start program config limit = .ok search) (hreduce : config.stateReduction = true)
    (hcomplete : search.explore = (final, .ok .complete)) {state : StateId} {event : Event}
    {access : Access} {place : TransitionRef} {earlier : Transition} {recorded : Footprint}
    (hplace : place ∈ final.explorer.knowledge.predecessors.of state)
    (hearlier : final.explorer.knowledge.log.transition? place = some earlier)
    (hother : earlier.event ≠ event)
    (hsummarised : access ∈ final.explorer.knowledge.summary.footprintAt state event)
    (hrecorded : final.explorer.knowledge.log.footprint? place = some recorded)
    (hconflict : access.conflictsWith recorded = true)
    (hkept : ⟨state, event, access, place⟩ ∉ search.stranded)
    (hfirst : state = search.machine.state →
      (final.explorer.knowledge.predecessors.of state).head? ≠ some place) :
    final.explorer.knowledge.backlog.isConstructed earlier.state event = true := by
  by_cases hevents : program.events = []
  · have hnowhere := predecessors_of_no_events hstart hevents state
    rw [hcomplete] at hnowhere
    exact absurd (hnowhere ▸ hplace) List.not_mem_nil
  · have hunderway := underway_start hstart hreduce hevents
    have hanswering := answering_start hstart hreduce hevents search.stranded
    rw [explore_eq hstart hreduce hevents] at hcomplete
    obtain ⟨hgrounded, hanswered⟩ := hunderway.ready.answers (hunderway.adopt_eq.symm ▸ hanswering)
      (fun journey hjourney lost hlost => List.mem_flatMap.mpr ⟨journey, hjourney, hlost⟩) hcomplete
    obtain ⟨transition, htaken⟩ := hgrounded state place hplace
    obtain rfl : transition = earlier :=
      Option.some.inj ((ExecutionLog.transition?_of_taken? htaken).symm.trans hearlier)
    rcases hanswered state event access place transition
      ⟨hplace, htaken, hother, hsummarised, recorded, hrecorded, hconflict⟩ with
      hconstructed | hstranded | ⟨rfl, hhead⟩
    · exact hconstructed
    · exact absurd hstranded hkept
    · exact absurd hhead (hfirst rfl)

/-- The last event resets the flag that was read on the way into the state, and the search tries it
first there. A walk of this search strands accesses, but not this one. -/
theorem races_answered_lookAndTurn :
    ∃ search final recorded, start lookAndTurn {} 0 = .ok search ∧
      search.explore = (final, .ok .complete) ∧
        ⟨⟨2⟩, 0⟩ ∈ final.explorer.knowledge.predecessors.of ⟨3⟩ ∧
          ⟨.write, "flag", ⟨1⟩⟩ ∈ final.explorer.knowledge.summary.footprintAt ⟨3⟩ ⟨3⟩ ∧
            final.explorer.knowledge.log.footprint? ⟨⟨2⟩, 0⟩ = some recorded ∧
              (⟨.write, "flag", ⟨1⟩⟩ : Access).conflictsWith recorded = true ∧
                search.stranded ≠ [] ∧
                  ⟨⟨3⟩, ⟨3⟩, ⟨.write, "flag", ⟨1⟩⟩, ⟨⟨2⟩, 0⟩⟩ ∉ search.stranded ∧
                    final.explorer.knowledge.backlog.isConstructed ⟨3⟩ ⟨3⟩ = true := by
  have hstart : start lookAndTurn {} 0 = .ok (initial lookAndTurn {} 0) :=
    start_eq_ok_iff.mpr ⟨by decide +kernel, rfl⟩
  have hfound : let knowledge := (initial lookAndTurn {} 0).explore.1.explorer.knowledge
      ⟨⟨2⟩, 0⟩ ∈ knowledge.predecessors.of ⟨3⟩ ∧
        (∃ earlier ∈ knowledge.log.transition? ⟨⟨2⟩, 0⟩,
          earlier.event ≠ ⟨3⟩ ∧ earlier.state = ⟨3⟩) ∧
          ⟨.write, "flag", ⟨1⟩⟩ ∈ knowledge.summary.footprintAt ⟨3⟩ ⟨3⟩ ∧
            ∃ recorded ∈ knowledge.log.footprint? ⟨⟨2⟩, 0⟩,
              (⟨.write, "flag", ⟨1⟩⟩ : Access).conflictsWith recorded = true := by
    decide +kernel
  have hstranded : (initial lookAndTurn {} 0).stranded ≠ [] ∧
      ⟨⟨3⟩, ⟨3⟩, ⟨.write, "flag", ⟨1⟩⟩, ⟨⟨2⟩, 0⟩⟩ ∉ (initial lookAndTurn {} 0).stranded := by
    decide +kernel
  have hinitial : (initial lookAndTurn {} 0).machine.state = ⟨1⟩ := by decide +kernel
  obtain ⟨final, hfinal, -⟩ := explore_completes hstart rfl (by decide)
  rw [hfinal] at hfound
  obtain ⟨hplace, ⟨earlier, hearlier, hother, hstate⟩, hsummarised, recorded, hrecorded,
    hconflict⟩ := hfound
  have hanswered := races_answered hstart rfl hfinal hplace hearlier hother hsummarised hrecorded
    hconflict hstranded.2 fun hsame => absurd (hsame.trans hinitial) (by decide)
  exact ⟨_, final, recorded, hstart, hfinal, hplace, hsummarised, hrecorded, hconflict,
    hstranded.1, hstranded.2, hstate ▸ hanswered⟩

/-- In a state that turning the dial leads to, the last event is known to turn the dial as well. A
walk stranded what it knows there, and the search never tries the last event first. -/
theorem race_unanswered_lookAndTurn :
    ∃ search final earlier recorded, start lookAndTurn {} 0 = .ok search ∧
      search.explore = (final, .ok .complete) ∧
        ⟨⟨1⟩, 0⟩ ∈ final.explorer.knowledge.predecessors.of ⟨5⟩ ∧
          final.explorer.knowledge.log.transition? ⟨⟨1⟩, 0⟩ = some earlier ∧
            earlier.event ≠ ⟨3⟩ ∧
              final.explorer.knowledge.log.footprint? ⟨⟨1⟩, 0⟩ = some recorded ∧
                (final.explorer.knowledge.summary.footprintAt ⟨5⟩ ⟨3⟩).conflictsWith recorded =
                    true ∧
                  final.explorer.knowledge.backlog.isConstructed earlier.state ⟨3⟩ = false := by
  have hstart : start lookAndTurn {} 0 = .ok (initial lookAndTurn {} 0) :=
    start_eq_ok_iff.mpr ⟨by decide +kernel, rfl⟩
  have hfound : let knowledge := (initial lookAndTurn {} 0).explore.1.explorer.knowledge
      ⟨⟨1⟩, 0⟩ ∈ knowledge.predecessors.of ⟨5⟩ ∧
        ∃ earlier ∈ knowledge.log.transition? ⟨⟨1⟩, 0⟩, earlier.event ≠ ⟨3⟩ ∧
          knowledge.backlog.isConstructed earlier.state ⟨3⟩ = false ∧
            ∃ recorded ∈ knowledge.log.footprint? ⟨⟨1⟩, 0⟩,
              (knowledge.summary.footprintAt ⟨5⟩ ⟨3⟩).conflictsWith recorded = true := by
    decide +kernel
  obtain ⟨final, hfinal, -⟩ := explore_completes hstart rfl (by decide)
  rw [hfinal] at hfound
  obtain ⟨hplace, earlier, hearlier, hother, hunanswered, recorded, hrecorded, hconflict⟩ := hfound
  exact ⟨_, final, earlier, recorded, hstart, hfinal, hplace, hearlier, hother, hrecorded,
    hconflict, hunanswered⟩

end Search

end EventOrder
