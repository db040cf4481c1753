import EventOrder.Proofs.Search.Moments
import EventOrder.Proofs.Search.Paths
import EventOrder.Proofs.Trace.Leaving

/-!
# Indexes and traces

Two indexes are kept beside the traces of the executions: at which places each state was left, and
which places lead into it. They are written in different calls, when a decision is recorded and when
a state is entered, and both outlive the execution. At every moment of a reduced search they say
what the traces say. A state was left at the places whose transitions were taken in it, other than
the first ones of executions. Into it lead the places before these, and otherwise at most the place
of the last event executed in an execution, into the state that this event led to.
-/

namespace EventOrder

/-- The events executed in one execution, in order. -/
def firedIn (done : List (ExecutionId × Firing)) (execution : ExecutionId) : List Firing :=
  (done.filter (·.1 = execution)).map Prod.snd

/-- What was executed in an execution once one more event was executed. -/
theorem firedIn_concat (done : List (ExecutionId × Firing)) (id execution : ExecutionId)
    (firing : Firing) :
    firedIn (done ++ [(id, firing)]) execution =
      if id = execution then firedIn done execution ++ [firing] else firedIn done execution := by
  by_cases hid : id = execution <;> simp [firedIn, hid]

/-- What was executed then was executed before or is the one event more. -/
theorem getElem?_firedIn_concat {done : List (ExecutionId × Firing)} {id execution : ExecutionId}
    {firing other : Firing} {position : Nat}
    (h : (firedIn (done ++ [(id, firing)]) execution)[position]? = some other) :
    (firedIn done execution)[position]? = some other ∨
      id = execution ∧ position = (firedIn done execution).length ∧ firing = other := by
  rw [firedIn_concat] at h
  split at h
  · rename_i hid
    rw [List.getElem?_append] at h
    split at h
    · exact Or.inl h
    · rw [List.getElem?_singleton] at h
      split at h
      · exact Or.inr ⟨hid, by omega, Option.some.inj h⟩
      · exact absurd h (by simp)
  · exact Or.inl h

namespace Explorer

/-- The indexes of an explorer say what the traces say and the events executed, listed in `done`. -/
structure Indexed {σ φ : Type} (explorer : Explorer σ φ) (machine : Machine) (code : Code)
    (done : List (ExecutionId × Firing)) : Prop where
  /-- A state was left at the places whose transitions were taken in it, and at no first place. -/
  reached : ∀ state place, explorer.knowledge.reached.isRecorded state place = true ↔
    0 < place.position ∧ ∃ transition,
      explorer.knowledge.log.transition? place = some transition ∧ transition.state = state
  /-- So a state is taken to reach the places of the states numbered as high or higher. -/
  reachable : ∀ state place, place ∈ explorer.reachableTransitions state ↔
    0 < place.position ∧ ∃ transition,
      explorer.knowledge.log.transition? place = some transition ∧
        state.number ≤ transition.state.number
  /-- The place before a transition leads into the state that this was taken in. -/
  before : ∀ execution position transition,
    explorer.knowledge.log.transition? ⟨execution, position + 1⟩ = some transition →
      ⟨execution, position⟩ ∈ explorer.knowledge.predecessors.of transition.state
  /-- Any other place that leads into a state is that of the last event executed in an execution,
  and the event led to the state. -/
  last : ∀ state, ∀ place ∈ explorer.knowledge.predecessors.of state,
    (∃ transition,
      explorer.knowledge.log.transition? ⟨place.execution, place.position + 1⟩ = some transition ∧
        transition.state = state) ∨
      ∃ transition, explorer.knowledge.log.transition? place = some transition ∧
        (firedIn done place.execution).length = place.position + 1 ∧
        (firedIn done place.execution).getLast? = some ⟨transition.state, transition.event⟩ ∧
        machine.LeadsInto code transition state
  /-- No place leads into a state twice. -/
  nodup : ∀ state, (explorer.knowledge.predecessors.of state).Nodup

end Explorer

variable {machine moved : Machine} {code : Code} {knowledge later : Knowledge}
  {done : List (ExecutionId × Firing)}

/-- A transition leads into one state only. -/
theorem Machine.LeadsInto.unique {transition : Transition} {state other : StateId}
    (h : machine.LeadsInto code transition state) (hnumbered : machine.Numbered)
    (hother : machine.LeadsInto code transition other) : state = other := by
  obtain ⟨values, hvalues, hnext⟩ := h
  obtain ⟨others, hothers, hthen⟩ := hother
  obtain rfl := hnumbered.injective _ _ _ hvalues hothers
  exact Option.some.inj (hnext.symm.trans hthen)

namespace Knowledge

/-- What is kept of the indexes throughout a search, said of the transitions taken. -/
structure Indexes (knowledge : Knowledge) (done : List (ExecutionId × Firing)) : Prop where
  /-- A state was left at the places whose transitions were taken in it, and at no first place. -/
  reached : ∀ state place, knowledge.reached.isRecorded state place = true ↔
    0 < place.position ∧ ∃ transition, knowledge.log.taken? place = some transition ∧
      transition.state = state
  /-- The place before a transition leads into the state that this was taken in. -/
  before : ∀ execution position transition,
    knowledge.log.taken? ⟨execution, position + 1⟩ = some transition →
      ⟨execution, position⟩ ∈ knowledge.predecessors.of transition.state
  /-- Any other place that leads into a state is that of the last event executed. -/
  last : ∀ state, ∀ place ∈ knowledge.predecessors.of state,
    (∃ transition,
      knowledge.log.taken? ⟨place.execution, place.position + 1⟩ = some transition ∧
        transition.state = state) ∨
      (firedIn done place.execution).length = place.position + 1
  /-- No place leads into a state twice. -/
  nodup : ∀ state, (knowledge.predecessors.of state).Nodup
  /-- What was executed was taken. -/
  executed : ∀ execution position firing,
    (firedIn done execution)[position]? = some firing →
      ∃ transition, knowledge.log.taken? ⟨execution, position⟩ = some transition ∧
        firing = ⟨transition.state, transition.event⟩

/-- The same transitions are taken, and the indexes are the same. -/
structure SameIndexes (knowledge later : Knowledge) : Prop where
  /-- The same transitions are taken. -/
  taken : ∀ place, later.log.taken? place = knowledge.log.taken? place
  /-- Executions that wait hold one place still. -/
  holdsOne : knowledge.log.HoldsOne → later.log.HoldsOne
  /-- The states were left at the same places. -/
  reached : later.reached = knowledge.reached
  /-- The same places lead into the states. -/
  predecessors : later.predecessors = knowledge.predecessors

/-- Nothing changes when nothing is done. -/
theorem SameIndexes.refl (knowledge : Knowledge) : knowledge.SameIndexes knowledge :=
  ⟨fun _ => rfl, id, rfl, rfl⟩

/-- Indexes that are the same say the same. -/
theorem Indexes.congr (h : knowledge.Indexes done) (hsame : knowledge.SameIndexes later) :
    later.Indexes done := by
  obtain ⟨hreached, hbefore, hlast, hnodup, hexecuted⟩ := h
  constructor
  · simpa only [hsame.taken, hsame.reached] using hreached
  · simpa only [hsame.taken, hsame.predecessors] using hbefore
  · simpa only [hsame.taken, hsame.predecessors] using hlast
  · simpa only [hsame.predecessors] using hnodup
  · simpa only [hsame.taken] using hexecuted

/-- Learning leaves the indexes as they are. -/
theorem Learns.sameIndexes {reference : List Event} (h : knowledge.Learns reference later) :
    knowledge.SameIndexes later :=
  ⟨fun _ => by rw [h.log_eq], fun hholds => by rwa [h.log_eq], h.reached_eq, h.predecessors_eq⟩

end Knowledge

namespace Explorer

/-- The indexes say what the traces say when what is kept of them does, and no place leads into a
state that its event does not lead to. -/
theorem indexed_of_indexes {σ φ : Type} {explorer : Explorer σ φ}
    (h : explorer.knowledge.Indexes done) (hholds : explorer.knowledge.log.HoldsOne)
    (hleads : ∀ state, ∀ place ∈ explorer.knowledge.predecessors.of state,
      ∃ transition, explorer.knowledge.log.taken? place = some transition ∧
        machine.LeadsInto code transition state) : explorer.Indexed machine code done := by
  have hlater (execution : ExecutionId) (position : Nat) :
      explorer.knowledge.log.transition? ⟨execution, position + 1⟩ =
        explorer.knowledge.log.taken? ⟨execution, position + 1⟩ := by
    apply Option.ext
    intro transition
    constructor
    · intro hplace
      exact (hholds.taken?_of_transition? hplace).1
    · exact ExecutionLog.transition?_of_taken?
  have hreached (state : StateId) (place : TransitionRef) :
      explorer.knowledge.reached.isRecorded state place = true ↔ 0 < place.position ∧
        ∃ transition, explorer.knowledge.log.transition? place = some transition ∧
          transition.state = state := by
    obtain ⟨execution, position⟩ := place
    rw [h.reached]
    cases position with
    | zero => simp
    | succ position => rw [hlater]
  refine ⟨hreached, fun state place => ?_, fun execution position transition hplace => ?_,
    fun state place hplace => ?_, h.nodup⟩
  · rw [reachableTransitions, Reachability.mem_reachableFrom]
    constructor
    · rintro ⟨left, hhigh, hrecorded⟩
      obtain ⟨hlater, transition, hplace, rfl⟩ := (hreached left place).mp hrecorded
      exact ⟨hlater, transition, hplace, hhigh⟩
    · rintro ⟨hlater, transition, hplace, hhigh⟩
      exact ⟨transition.state, hhigh, (hreached _ place).mpr ⟨hlater, transition, hplace, rfl⟩⟩
  · rw [hlater] at hplace
    exact h.before execution position transition hplace
  · rw [hlater]
    rcases h.last state place hplace with hregular | hlength
    · exact Or.inl hregular
    · obtain ⟨transition, htaken, hleads⟩ := hleads state place hplace
      have hfired : (firedIn done place.execution)[place.position]? =
          some ⟨transition.state, transition.event⟩ := by
        obtain ⟨firing, hfiring⟩ : ∃ firing,
            (firedIn done place.execution)[place.position]? = some firing :=
          ⟨_, List.getElem?_eq_getElem (by omega)⟩
        obtain ⟨other, hother, rfl⟩ := h.executed _ _ firing hfiring
        obtain rfl := Option.some.inj (hother.symm.trans htaken)
        exact hfiring
      refine Or.inr ⟨transition, ExecutionLog.transition?_of_taken? htaken, hlength, ?_, hleads⟩
      rw [List.getLast?_eq_getElem?, hlength, Nat.add_sub_cancel]
      exact hfired

end Explorer

/-- Hence they do wherever the executions are traced, also once more states are numbered. -/
theorem Knowledge.Indexes.indexed {σ φ : Type} {explorer : Explorer σ φ}
    (h : knowledge.Indexes done) (htraces : knowledge.Traces machine code)
    (hsame : knowledge.SameIndexes explorer.knowledge) (hkept : machine.Keeps moved) :
    explorer.Indexed moved code done := by
  refine Explorer.indexed_of_indexes (h.congr hsame) (hsame.holdsOne htraces.holdsOne)
    fun state place hplace => ?_
  rw [hsame.predecessors] at hplace
  obtain ⟨transition, htaken, hleads⟩ := htraces.predecessor state place hplace
  exact ⟨transition, (hsame.taken place).trans htaken, hleads.mono hkept⟩

namespace Explorer

variable {σ φ : Type} {explorer : Explorer σ φ}

/-- The places at which states were left once a decision is recorded: the states just entered are
left at its place. -/
theorem isRecorded_noted {view : HostView σ} {point : PointId} {event : Event} {state : StateId}
    {place : TransitionRef} :
    (explorer.noted view point event).knowledge.reached.isRecorded state place = true ↔
      explorer.knowledge.reached.isRecorded state place = true ∨
        state ∈ explorer.visits.recent ∧ place = ⟨explorer.current, explorer.counter⟩ :=
  Reachability.isRecorded_foldl_record ..

/-- Recording a decision records no place twice. -/
theorem nodup_predecessors_noted (explorer : Explorer σ φ) (view : HostView σ) (point : PointId)
    (event : Event) {state : StateId} (h : (explorer.knowledge.predecessors.of state).Nodup) :
    ((explorer.noted view point event).knowledge.predecessors.of state).Nodup := by
  simp only [noted]
  cases explorer.previousPlace? with
  | none => exact h
  | some previous => exact Predecessors.nodup_of_record h previous

/-- Neither does entering a state. -/
theorem nodup_predecessors_stateEntered (explorer : Explorer σ φ) (entered : StateId)
    {state : StateId} (h : (explorer.knowledge.predecessors.of state).Nodup) :
    ((explorer.stateEntered entered).knowledge.predecessors.of state).Nodup := by
  unfold stateEntered
  split
  · exact h
  · simp only
    split
    · exact Predecessors.nodup_of_record h _
    · exact h

/-- Observing accesses leaves the indexes as they are. -/
theorem sameIndexes_observed [AccessFilter φ] (explorer : Explorer σ φ) (accesses : List Access) :
    explorer.knowledge.SameIndexes (explorer.observed accesses).knowledge := by
  exact ⟨explorer.taken?_observed accesses,
    (explorer.continues_observed accesses).holdsOne, rfl, rfl⟩

/-- So does a restart. -/
theorem sameIndexes_restarted (explorer : Explorer σ φ) (next : BacktrackPoint) (rest : Backlog) :
    explorer.knowledge.SameIndexes (explorer.restarted next rest).knowledge := by
  refine ⟨explorer.taken?_restarted next rest, fun hholds => ?_, rfl, rfl⟩
  have hreleased : explorer.knowledge.log.Continues
      (explorer.knowledge.log.modify explorer.current Execution.release) :=
    ExecutionLog.continues_modify _ _ _ (fun _ => rfl) fun _ hfresh => ⟨hfresh, rfl⟩
  exact (hreleased.holdsOne hholds).add rfl

/-- Hence so does moving on. -/
theorem sameIndexes_moveOn (explorer : Explorer σ φ) (view : HostView σ) (point : DecisionPoint) :
    explorer.knowledge.SameIndexes (explorer.moveOn view point).explorer.knowledge := by
  unfold moveOn
  cases explorer.knowledge.backlog.pop? with
  | none => exact .refl _
  | some popped =>
    obtain ⟨next, backlog⟩ := popped
    dsimp only
    split
    · exact ⟨fun _ => rfl, id, rfl, rfl⟩
    · exact explorer.sameIndexes_restarted next backlog

end Explorer

namespace Search

variable {search : Search} {point : DecisionPoint} {waiting taken : List BacktrackPoint}
  {due : Event}

/-- Between two turns the indexes say what the traces say, and the execution under way has executed
an event for each decision. -/
structure Indexing (search : Search) (done : List (ExecutionId × Firing)) : Prop where
  /-- The indexes say what the traces say. -/
  indexes : search.explorer.knowledge.Indexes done
  /-- Every decision counted was executed. -/
  decided : (firedIn done search.explorer.current).length = search.explorer.counter

/-- Recording the due decision leaves the state at its place, and the place before leads into it. -/
theorem Indexing.noted (h : search.Indexing done) (hunderway : search.Underway point waiting taken)
    (due : Event) :
    (search.explorer.noted search.machine.view point.id due).knowledge.Indexes done := by
  have htaken := hunderway.explorer.taken?_noted search.machine.view point.id due
  have hkept (place : TransitionRef) (transition : Transition)
      (hplace : search.explorer.knowledge.log.taken? place = some transition) :
      (search.explorer.noted search.machine.view point.id due).knowledge.log.taken? place =
        some transition :=
    hunderway.explorer.taken?_noted_of_taken? search.machine.view point.id due hplace
  constructor
  · intro state place
    rw [Explorer.isRecorded_noted, h.indexes.reached, htaken, hunderway.recent]
    by_cases hhere : place = ⟨search.explorer.current, search.explorer.counter⟩
    · subst hhere
      have hnew : search.explorer.knowledge.log.taken?
          ⟨search.explorer.current, search.explorer.counter⟩ = none := by
        rw [Option.eq_none_iff_forall_ne_some]
        exact fun transition hplace => hunderway.explorer.ne_of_taken? hplace rfl
      by_cases hcounter : search.explorer.counter = 0
      · simp [hcounter]
      · simp [hcounter, hnew, Nat.pos_of_ne_zero hcounter, Machine.view]
    · simp [hhere]
  · intro execution position transition hplace
    rw [htaken] at hplace
    rw [Explorer.mem_predecessors_noted]
    split at hplace
    · rename_i hhere
      obtain ⟨rfl, hposition⟩ := TransitionRef.mk.inj hhere
      refine Or.inr ⟨(congrArg Transition.state (Option.some.inj hplace)).symm, ?_⟩
      simp [Explorer.previousPlace?, ← hposition]
    · exact Or.inl (h.indexes.before execution position transition hplace)
  · intro state place hplace
    rcases Explorer.mem_predecessors_noted.mp hplace with hold | ⟨rfl, hprevious⟩
    · rcases h.indexes.last state place hold with ⟨transition, hnext, hstate⟩ | hlength
      · exact Or.inl ⟨transition, hkept _ transition hnext, hstate⟩
      · exact Or.inr hlength
    · left
      unfold Explorer.previousPlace? at hprevious
      split at hprevious
      · exact absurd hprevious (by simp)
      · rename_i hcounter
        obtain rfl := Option.some.inj hprevious
        refine ⟨⟨due, search.machine.state, some point.id⟩, ?_, rfl⟩
        rw [htaken, if_pos]
        · rfl
        · simp only [TransitionRef.mk.injEq, true_and]
          omega
  · intro state
    exact search.explorer.nodup_predecessors_noted _ _ _ (h.indexes.nodup state)
  · intro execution position firing hfiring
    obtain ⟨transition, hplace, hsame⟩ := h.indexes.executed execution position firing hfiring
    exact ⟨transition, hkept _ transition hplace, hsame⟩

/-- Learning from the due decision leaves the indexes so. -/
theorem Indexing.weighed (h : search.Indexing done)
    (hunderway : search.Underway point waiting taken) {weighed : Explorer Values PatternFilter}
    (hweighs : search.Weighs point due weighed) : weighed.knowledge.Indexes done := by
  cases hweighs with
  | matched _ hlearns => exact h.indexes.congr hlearns.sameIndexes
  | recorded _ hlearns => exact (h.noted hunderway due).congr hlearns.sameIndexes

/-- The last transition leads into the state that the machine stands in, and into no other. -/
private theorem OnPath.eq_state_of_leadsInto (h : search.OnPath)
    (hnumbered : search.machine.Numbered) {position : Nat} {transition : Transition}
    {state : StateId} (hposition : search.explorer.counter = position + 1)
    (htaken : search.explorer.knowledge.log.taken? ⟨search.explorer.current, position⟩ =
      some transition) (hleads : search.machine.LeadsInto search.code transition state) :
    state = search.machine.state := by
  refine hleads.unique hnumbered (h.last transition (by omega) ?_)
  rw [hposition]
  exact htaken

/-- Once the due event is executed, the place before it leads into the state that it was taken in,
and at most its own place into the state that it led to. -/
theorem Indexing.advanced (h : search.Indexing done) (hpath : search.OnPath)
    (hunderway : search.Underway point waiting taken) (hdue : due ∈ search.code.events)
    (hrecorded : search.matchesState = false)
    (hweighs : search.Weighs point due (search.weighed point)) :
    (search.advanced point due).Indexing
      (done ++ [((search.advanced point due).explorer.current, ⟨search.machine.state, due⟩)]) := by
  obtain ⟨decisions, -, -, hreducing⟩ := (hunderway.weighed hdue hweighs).underway
  obtain ⟨hcurrent, hcounter, -, -, htaken⟩ := hunderway.advanced_same hdue hrecorded hweighs
  obtain ⟨filter, log, predecessors, heq, hlog⟩ :=
    search.advanced_explorer point due hreducing.reducing
  have hreached : (search.advanced point due).explorer.knowledge.reached =
      (search.weighed point).knowledge.reached := by rw [heq]
  have hsame (place : TransitionRef) :
      (search.advanced point due).explorer.knowledge.log.taken? place =
        (search.weighed point).knowledge.log.taken? place := by
    rw [heq]
    exact hlog place
  have hweighed := h.weighed hunderway hweighs
  have hfired (execution : ExecutionId) := firedIn_concat done search.explorer.current execution
    ⟨search.machine.state, due⟩
  rw [hcurrent]
  refine
    { indexes :=
        { reached := fun state place => ?_
          before := fun execution position transition hplace => ?_
          last := fun state place hplace => ?_
          nodup := fun state =>
            Explorer.nodup_predecessors_stateEntered _ _ (hweighed.nodup state)
          executed := fun execution position firing hfiring => ?_ }
      decided := ?_ }
  · rw [hreached, hsame]
    exact hweighed.reached state place
  · rw [hsame] at hplace
    exact Explorer.mem_predecessors_stateEntered_of_mem
      (hweighed.before execution position transition hplace)
  · rw [hfired]
    rcases hunderway.lead_of_advanced hdue hweighs hplace with hold | ⟨-, rfl⟩
    · rcases hweighed.last state place hold with ⟨transition, hnext, hstate⟩ | hlength
      · exact Or.inl ⟨transition, (hsame _).trans hnext, hstate⟩
      · by_cases hhere : search.explorer.current = place.execution
        · -- the last event so far led to the state that the due one was taken in
          left
          obtain ⟨execution, position⟩ := place
          obtain rfl : search.explorer.current = execution := hhere
          have hposition : search.explorer.counter = position + 1 := h.decided.symm.trans hlength
          obtain ⟨transition, hplace, hleads⟩ :=
            (hpath.weighed hunderway hweighs).predecessor state _ hold
          rw [← hsame, htaken, if_neg (by simp only [TransitionRef.mk.injEq]; omega)] at hplace
          have hstate := hpath.eq_state_of_leadsInto hunderway.machine.toNumbered hposition hplace
            hleads
          exact ⟨_, (htaken _).trans (if_pos (by rw [hposition])), hstate.symm⟩
        · rw [if_neg hhere]
          exact Or.inr hlength
    · right
      rw [if_pos rfl, List.length_append, h.decided]
      rfl
  · rcases getElem?_firedIn_concat hfiring with hold | ⟨rfl, rfl, rfl⟩
    · rw [hsame]
      exact hweighed.executed execution position firing hold
    · exact ⟨_, (htaken _).trans (if_pos (by rw [h.decided])), rfl⟩
  · rw [hcurrent, hfired, if_pos rfl, List.length_append, h.decided, hcounter]
    rfl

/-- A restart leaves the indexes as they are, and nothing was executed in the new execution. -/
theorem Indexing.restartedAt (h : search.Indexing done)
    (hunderway : search.Underway point waiting taken) (hdue : due ∈ search.code.events)
    {weighed : Explorer Values PatternFilter} (hweighs : search.Weighs point due weighed)
    (next : BacktrackPoint) (rest : Backlog) (values : Values) (isNew : Bool)
    (closed : List PointId) :
    (search.restartedAt weighed next rest values isNew closed).Indexing done := by
  have hindexes :
      (search.restartedAt weighed next rest values isNew closed).explorer.knowledge.Indexes done :=
    (h.weighed hunderway hweighs).congr (weighed.sameIndexes_restarted next rest)
  obtain ⟨-, hcounter, -, hnone⟩ :=
    hunderway.restartedAt_same hdue hweighs next rest values isNew closed
  refine ⟨hindexes, ?_⟩
  rw [hcounter, List.length_eq_zero_iff, List.eq_nil_iff_forall_not_mem]
  intro firing hfiring
  obtain ⟨position, hposition⟩ := List.mem_iff_getElem?.mp hfiring
  obtain ⟨transition, hplace, -⟩ := hindexes.executed _ position firing hposition
  exact absurd ((hnone position).symm.trans hplace) (by simp)

/-- Wherever a reduced search comes to between two turns, its indexes say what the traces say. -/
theorem Ready.indexing (h : search.Ready point waiting taken) (hpath : search.adopt.OnPath)
    (hindexing : search.adopt.Indexing done) {more : List (ExecutionId × Firing)} {later : Search}
    {next : DecisionPoint} (hperforms : Performs Search.decide search point more later next) :
    later.adopt.Indexing (done ++ more) := by
  induction hperforms with
  | start => exact (List.append_nil done).symm ▸ hindexing
  | @fired more between last rest point firing hperforms hturn ih =>
    obtain ⟨-, waiting, taken, hready, honPath⟩ := h.onPath_of_reaches hpath hperforms.reaches
    have hturns := hready.turn
    rw [hturn] at hturns
    cases hturns with
    | fired hdue hat hrecorded hweighs hnew hafter =>
      rw [hafter.adopt_eq, ← List.append_assoc]
      exact ih.advanced honPath hready.underway hdue hrecorded hweighs
  | moved hperforms hturn ih =>
    obtain ⟨waiting, taken, hready⟩ := h.of_reaches hperforms.reaches
    have hturns := hready.turn
    rw [hturn] at hturns
    cases hturns with
    | moved hdue hat hweighs hover hpop hschedule hafter hadopt hlater =>
      rw [hadopt]
      exact ih.restartedAt hready.underway hdue hweighs _ _ _ _ _

/-- At every moment of a turn the indexes say what the traces say. -/
theorem Ready.indexed (h : search.Ready point waiting taken) (hpath : search.adopt.OnPath)
    (hindexing : search.adopt.Indexing done) {more : List (ExecutionId × Firing)} {moment : Search}
    (hstands : search.Stands point more moment) :
    moment.explorer.Indexed moment.machine search.code (done ++ more) := by
  obtain ⟨due, hdue, hat, hweighs, hconsults⟩ := h.underway.consults
  have hindexes := hindexing.weighed h.underway hweighs
  have htraces := hpath.weighed h.underway hweighs
  have hobeyed : search.machine.Keeps (search.accept (search.consult point)).machine :=
    fun _ _ hnumber => h.numbering_accept ▸ hnumber
  rw [h.consult_adopt] at hconsults
  cases hstands with
  | begins =>
    rw [List.append_nil]
    refine hindexing.indexes.indexed hpath.traces ?_ fun _ _ => id
    rw [search.knowledge_adopt]
    exact .refl _
  | consulted hasks =>
    rw [List.append_nil]
    refine hindexes.indexed htraces ?_ hobeyed
    cases hconsults with
    | proceeds hrecorded houtcome hexplorer hid hcurrent =>
      simp only [accept, hexplorer]
      exact .refl _
    | @movesOn houtcome last hknowledge =>
      simp only [accept, hknowledge]
      exact Explorer.sameIndexes_moveOn _ _ last
  | @observing other hgoes seen rest hseen =>
    cases hconsults with
    | movesOn houtcome => exact absurd hgoes.2.1 houtcome
    | proceeds hrecorded houtcome hexplorer hid hcurrent =>
      obtain rfl : due = other := Option.some.inj (hcurrent.symm.trans hgoes.2.2)
      rw [List.append_nil]
      rw [hid] at hseen
      rw [hexplorer, h.underway.foldl_observed hdue hrecorded hweighs hseen]
      refine hindexes.indexed htraces ?_ hobeyed
      exact ((search.adopt.weighed point).proceeded _ due).sameIndexes_observed _
  | @entered other hgoes moment hmoment =>
    -- between entering the state and the next turn only the next point is opened
    obtain ⟨hknowledge, hcurrent, hnumbering⟩ := moment.registerPoint_same
    have hturn := decide_of_goesAhead hgoes
    simp only [← hmoment] at hturn
    have hbegins : Performs Search.decide search point [] search point := .start
    have hperforms := hbegins.fired hturn
    obtain ⟨hcode, waiting, taken, -, honPath⟩ := h.onPath_of_reaches hpath hperforms.reaches
    have hafter := (h.indexing hpath hindexing hperforms).indexes
    have htraced := honPath.traces
    rw [hcurrent] at hafter
    refine hafter.indexed (hcode ▸ htraced) ?_ fun values state hnumber => ?_
    · rw [knowledge_adopt, hknowledge]
      exact .refl _
    · rw [← hnumbering]
      exact hnumber

/-- Before the first decision no place left a state and none leads into one. -/
private theorem indexes_registered (program : Program) (config : ExploreConfig) :
    (registered program config).knowledge.Indexes [] := by
  have hreached : (registered program config).knowledge.reached = .empty := rfl
  have hpredecessors : (registered program config).knowledge.predecessors = .empty := rfl
  constructor
  · simp [hreached, Reachability.isRecorded_empty, taken?_registered]
  · simp [taken?_registered]
  · simp [hpredecessors]
  · simp [hpredecessors]
  · simp [firedIn]

/-- So the indexes say what the traces say when nothing else is known yet. -/
private theorem indexed_registered {program : Program} {config : ExploreConfig}
    {explorer : Explorer Values PatternFilter} (machine : Machine) (code : Code)
    (hknowledge : explorer.knowledge = (registered program config).knowledge) :
    explorer.Indexed machine code [] := by
  have hpredecessors : explorer.knowledge.predecessors = .empty := by
    rw [hknowledge]
    rfl
  have htraces := Knowledge.traces_registered program config machine code
  refine Explorer.indexed_of_indexes (hknowledge ▸ indexes_registered program config)
    (hknowledge ▸ htraces.holdsOne) fun state place hplace => ?_
  exact absurd hplace (by simp [hpredecessors])

/-- At the start of a reduced search, at every moment of it and at its end, a state was left at the
places other than the first ones whose transitions were taken in it, the place before leads into
it, and any other place that leads into a state is that of the last event executed in an execution,
which led there. -/
theorem indexes_agree_with_traces {program : Program} {config : ExploreConfig} {limit : Nat}
    (hstart : start program config limit = .ok search) (hreduce : config.stateReduction = true) :
    search.explorer.Indexed search.machine program.code [] ∧
    (∀ done later next,
      Performs Search.decide search.registerPoint.1 search.registerPoint.2 done later next →
        ∀ more moment, later.Stands next more moment →
          moment.explorer.Indexed moment.machine program.code (done ++ more)) ∧
    search.explore.1.explorer.Indexed search.explore.1.machine program.code search.executions := by
  have hinitial : search.explorer.knowledge = (registered program config).knowledge := by
    obtain ⟨-, rfl⟩ := start_eq_ok_iff.mp hstart
    rfl
  refine ⟨indexed_registered search.machine program.code hinitial, ?_⟩
  by_cases hevents : program.events = []
  · have hregistered := search.registerPoint_same.1.trans hinitial
    refine ⟨fun done later next hperforms more moment hstands => ?_, ?_⟩
    · obtain ⟨rfl, rfl, rfl⟩ := hperforms.eq_of_no_events hstands hstart hevents
      exact indexed_registered _ _ hregistered
    · rw [← explorer_explore_of_no_events hstart hevents] at hregistered
      rw [executions_of_no_events hstart hevents]
      exact indexed_registered _ _ hregistered
  · have hunderway := underway_start hstart hreduce hevents
    have hpath := onPath_start hstart hreduce hevents
    have hindexing : search.registerPoint.1.Indexing [] := by
      rw [registerPoint_start hstart hreduce hevents]
      exact ⟨indexes_registered program config, rfl⟩
    rw [← hunderway.adopt_eq] at hpath hindexing
    have hcode : search.registerPoint.1.code = program.code := by
      obtain ⟨-, rfl⟩ := start_eq_ok_iff.mp hstart
      rfl
    have hmoments (done : List (ExecutionId × Firing)) (later : Search) (next : DecisionPoint)
        (hperforms : Performs Search.decide search.registerPoint.1 search.registerPoint.2 done later
          next) (more : List (ExecutionId × Firing)) (moment : Search)
        (hstands : later.Stands next more moment) :
        moment.explorer.Indexed moment.machine program.code (done ++ more) := by
      obtain ⟨hsame, waiting, taken, hready, honPath⟩ :=
        hunderway.ready.onPath_of_reaches hpath hperforms.reaches
      have hthere := hunderway.ready.indexing hpath hindexing hperforms
      rw [← hcode, ← hsame]
      exact hready.indexed honPath hthere hstands
    obtain ⟨later, next, hperforms, hstands⟩ := search.registerPoint.1.exists_stands_takeTurns
      search.registerPoint.2 search.registerPoint.1.decisionBound
    have hlast := hmoments _ later next hperforms _ _ hstands
    rw [List.append_nil] at hlast
    rw [explore_eq hstart hreduce hevents]
    exact ⟨hmoments, hlast⟩

/-- Two events that write one variable are executed in either order: after six turns and four events
both executions lead into the third state, each by another event. -/
theorem indexes_agree_with_traces_twoWriters :
    ∃ search, start twoWriters {} 0 = .ok search ∧
      let later := (search.registerPoint.1.takeTurns Search.decide 6 search.registerPoint.2).1
      let done := firings Search.decide 6 search.registerPoint.1 search.registerPoint.2
      done.length = 4 ∧
        later.explorer.knowledge.predecessors.of ⟨3⟩ = [⟨⟨0⟩, 1⟩, ⟨⟨1⟩, 0⟩] ∧
          later.explorer.Indexed later.machine twoWriters.code done := by
  have hstart : start twoWriters {} 0 = .ok (initial twoWriters {} 0) :=
    start_eq_ok_iff.mpr ⟨by decide +kernel, rfl⟩
  refine ⟨_, hstart, by decide +kernel, by decide +kernel, ?_⟩
  obtain ⟨later, next, hperforms, hstands⟩ :=
    (initial twoWriters {} 0).registerPoint.1.exists_stands_takeTurns
      (initial twoWriters {} 0).registerPoint.2 6
  have hindexed := (indexes_agree_with_traces hstart rfl).2.1 _ later next hperforms _ _ hstands
  rwa [List.append_nil] at hindexed

end Search

end EventOrder
