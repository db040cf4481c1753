import EventOrder.Proofs.Decision.Rounds
import EventOrder.Proofs.Search.Progress

/-!
# The execution under way

The trace of the execution under way follows its schedule round and round. For every state entered
along it the explorer knows exactly which events were taken since, and no event is executed twice in
one state after the first decision: a state that comes up again at the same place of the round has
seen a whole round since, and the execution is over there.
-/

namespace EventOrder.Search

variable {search : Search} {point : DecisionPoint} {waiting taken : List BacktrackPoint}

/-- The state that the execution under way entered before the decision at a position. -/
def Enters (search : Search) (position : Nat) (state : StateId) : Prop :=
  (∃ transition, search.explorer.knowledge.log.taken? ⟨search.explorer.current, position⟩ =
      some transition ∧ transition.state = state) ∨
    position = search.explorer.counter ∧ search.machine.state = state

/-- What is known of the execution under way. -/
structure Tracks (search : Search) : Prop where
  /-- The events taken are those that were due. -/
  due : ∀ position transition,
    search.explorer.knowledge.log.taken? ⟨search.explorer.current, position⟩ = some transition →
      search.explorer.schedule.eventAt? position = some transition.event
  /-- Every event taken since a state was entered is known. -/
  since : ∀ position state, 1 ≤ position → search.Enters position state →
    ∃ taken, search.explorer.visits.takenSince[state]? = some taken ∧
      ∀ later event, position ≤ later → later < search.explorer.counter →
        search.explorer.schedule.eventAt? later = some event → event ∈ taken
  /-- Only events taken since a state was entered are known to be. -/
  only : ∀ state taken, search.explorer.visits.takenSince[state]? = some taken →
    ∃ position, 1 ≤ position ∧ position ≤ search.explorer.counter ∧
      search.Enters position state ∧
      ∀ event ∈ taken, ∃ later, position ≤ later ∧ later < search.explorer.counter ∧
        search.explorer.schedule.eventAt? later = some event
  /-- After the first decision no event was taken twice in one state. -/
  distinct : ∀ first second transition other, 1 ≤ first → first < second →
    search.explorer.knowledge.log.taken? ⟨search.explorer.current, first⟩ = some transition →
    search.explorer.knowledge.log.taken? ⟨search.explorer.current, second⟩ = some other →
      transition.state = other.state → transition.event ≠ other.event

/-- An execution that has made no decision is tracked. -/
theorem tracks_of_counter_eq_zero (hcounter : search.explorer.counter = 0)
    (hsince : search.explorer.visits.takenSince = ∅)
    (hnothing : ∀ position,
      search.explorer.knowledge.log.taken? ⟨search.explorer.current, position⟩ = none) :
    search.Tracks where
  due position transition htaken := by simp [hnothing] at htaken
  since position state hposition henters := by
    rcases henters with ⟨transition, htaken, -⟩ | ⟨hat, -⟩
    · simp [hnothing] at htaken
    · omega
  only state taken htaken := by simp [hsince] at htaken
  distinct first second transition other _ _ htaken := by simp [hnothing] at htaken

/-- All events were taken since a state was entered when each of them is known to be. -/
theorem Underway.coversAllEvents_iff (h : search.Underway point waiting taken) (state : StateId) :
    search.explorer.coversAllEvents state = true ↔
      ∃ taken, search.explorer.visits.takenSince[state]? = some taken ∧
        ∀ event ∈ search.code.events, event ∈ taken := by
  obtain ⟨count, hcount⟩ : ∃ count, search.code.bodies.length = count + 1 := by
    refine Nat.exists_eq_succ_of_ne_zero fun hzero => h.explorer.nonempty ?_
    simp [Code.events, Event.firstEvents, hzero]
  have hlast : search.explorer.lastEvent = some ⟨count⟩ := by
    rw [h.explorer.lastEvent, Code.events, Event.firstEvents, hcount, List.range_succ]
    simp
  have hall (taken : Std.ExtTreeSet Event) :
      ((count + 1).all fun number _ => taken.contains ⟨number⟩) = true ↔
        ∀ event ∈ search.code.events, event ∈ taken := by
    simp only [Code.events, Event.firstEvents, hcount, List.mem_map, List.mem_range,
      Nat.all_eq_finRange_all, List.all_eq_true, Std.ExtTreeSet.contains_iff_mem]
    constructor
    · rintro hnumbers event ⟨number, hnumber, rfl⟩
      exact hnumbers ⟨number, hnumber⟩ (List.mem_finRange _)
    · exact fun hevents number _ => hevents ⟨number⟩ ⟨number, number.isLt, rfl⟩
  simp only [Explorer.coversAllEvents, hlast, Visits.covers]
  cases search.explorer.visits.takenSince[state]? with
  | none => simp
  | some taken => simp only [hall, Option.some.injEq, exists_eq_left']

/-- The events known to be taken since a state was entered, after one more event. -/
private theorem getElem?_takenSince_enter (visits : Visits) (due : Event)
    (entered state : StateId) :
    (((visits.take due).forgetRecent).enter entered).takenSince[state]? =
      match visits.takenSince[state]? with
      | some taken => some (taken.insert due)
      | none => if state = entered then some ∅ else none := by
  simp only [Visits.take, Visits.forgetRecent, Visits.enter, Std.ExtTreeMap.getElem?_insertIfNew,
    Std.ExtTreeMap.getElem?_map, Std.compare_eq_iff_eq, Std.ExtTreeMap.mem_iff_isSome_getElem?]
  by_cases hstate : entered = state
  · subst hstate
    cases visits.takenSince[entered]? <;> simp
  · have hne : ¬state = entered := fun heq => hstate heq.symm
    cases visits.takenSince[state]? <;> simp [hstate, hne]

/-- The states entered once the due event was executed are those entered before and the one that it
led to. -/
theorem Underway.enters_advanced (h : search.Underway point waiting taken) {due : Event}
    (hdue : due ∈ search.code.events) (hrecorded : search.matchesState = false)
    (hweighs : search.Weighs point due (search.weighed point)) (position : Nat) (state : StateId) :
    (search.advanced point due).Enters position state ↔
      search.Enters position state ∨
        position = search.explorer.counter + 1 ∧ (search.stepped due).state = state := by
  obtain ⟨hcurrent, hcounter, -, -, htaken⟩ := h.advanced_same hdue hrecorded hweighs
  have hmachine : (search.advanced point due).machine = search.stepped due := rfl
  simp only [Enters, hcurrent, hcounter, htaken, hmachine, TransitionRef.mk.injEq, true_and]
  constructor
  · rintro (⟨transition, hplace, hstate⟩ | hlast)
    · split at hplace
      · rename_i hhere
        rw [← Option.some.inj hplace] at hstate
        exact Or.inl (Or.inr ⟨hhere, hstate⟩)
      · exact Or.inl (Or.inl ⟨transition, hplace, hstate⟩)
    · exact Or.inr hlast
  · rintro ((⟨transition, hplace, hstate⟩ | ⟨hhere, hstate⟩) | hlast)
    · have hbefore := h.explorer.lt_of_taken? hplace
      exact Or.inl ⟨transition, by rw [if_neg (by omega)]; exact hplace, hstate⟩
    · exact Or.inl ⟨_, if_pos hhere, hstate⟩
    · exact Or.inr hlast

/-- An event that was already taken in the state of a decision after the first is not due there
again: every event was taken since, and the execution is over. -/
private theorem not_due_again (h : search.Underway point waiting taken) (htracks : search.Tracks)
    {due : Event}
    (hat : search.explorer.schedule.eventAt? search.explorer.counter = some due)
    (hnew : 0 < search.explorer.counter → search.machine.isNew = false →
      search.explorer.coversAllEvents search.machine.state = false)
    {position : Nat} {transition : Transition} (hposition : 1 ≤ position)
    (htaken : search.explorer.knowledge.log.taken? ⟨search.explorer.current, position⟩ =
      some transition) (hstate : transition.state = search.machine.state) :
    transition.event ≠ due := by
  intro hevent
  have hbefore := h.explorer.lt_of_taken? htaken
  have hdistinct : search.explorer.schedule.order.Nodup :=
    h.explorer.order.nodup_iff.mpr (nodup_events search.code)
  have hsnapshot := h.explorer.snapshot_of_taken _ _ htaken
  have hmet : search.machine.isNew = false := by
    rw [← Bool.not_eq_true]
    exact fun hfresh => h.undiscovered (by omega) hfresh (hstate ▸ hsnapshot)
  have hround := Schedule.add_length_le_of_eventAt? hdistinct hbefore
    (htracks.due _ _ htaken) (hevent.symm ▸ hat)
  obtain ⟨since, hsince, hall⟩ := htracks.since position search.machine.state hposition
    (Or.inl ⟨transition, htaken, hstate⟩)
  have hcovers : search.explorer.coversAllEvents search.machine.state = true := by
    refine (h.coversAllEvents_iff _).mpr ⟨since, hsince, fun event hmem => ?_⟩
    obtain ⟨later, hlater, hbound, hat⟩ := Schedule.exists_eventAt?_of_mem
      (h.explorer.order.mem_iff.mpr hmem) position
    exact hall later event hlater (by omega) hat
  rw [hnew (by omega) hmet] at hcovers
  exact absurd hcovers (by simp)

/-- Once the due event was executed, all events taken since each entry of a state are known, the
due one included. -/
private theorem Tracks.since_advanced (h : search.Underway point waiting taken)
    (htracks : search.Tracks) {due : Event} (hdue : due ∈ search.code.events)
    (hat : search.explorer.schedule.eventAt? search.explorer.counter = some due)
    (hrecorded : search.matchesState = false)
    (hweighs : search.Weighs point due (search.weighed point)) {position : Nat} {state : StateId}
    (hpositive : 1 ≤ position) (hstate : (search.advanced point due).Enters position state) :
    ∃ since, (search.advanced point due).explorer.visits.takenSince[state]? = some since ∧
      ∀ later event, position ≤ later → later < (search.advanced point due).explorer.counter →
        (search.advanced point due).explorer.schedule.eventAt? later = some event →
          event ∈ since := by
  have henters := h.enters_advanced hdue hrecorded hweighs
  obtain ⟨-, hcounter, hschedule, hvisits, -⟩ := h.advanced_same hdue hrecorded hweighs
  rw [hvisits, hcounter, hschedule, getElem?_takenSince_enter]
  rcases (henters position state).mp hstate with hold | ⟨rfl, rfl⟩
  · obtain ⟨taken, hsince, hall⟩ := htracks.since position state hpositive hold
    rw [hsince]
    refine ⟨taken.insert due, rfl, fun later event hlater hbound hevent => ?_⟩
    rw [Std.ExtTreeSet.mem_insert, Std.compare_eq_iff_eq]
    by_cases hlast : later = search.explorer.counter
    · rw [hlast, hat] at hevent
      exact Or.inl (Option.some.inj hevent)
    · exact Or.inr (hall later event hlater (by omega) hevent)
  · cases search.explorer.visits.takenSince[(search.stepped due).state]? with
    | some taken => exact ⟨_, rfl, fun later event hlater hbound => absurd hbound (by omega)⟩
    | none => exact ⟨∅, if_pos rfl, fun later event hlater hbound => absurd hbound (by omega)⟩

/-- No other events are known to be taken since then. -/
private theorem Tracks.only_advanced (h : search.Underway point waiting taken)
    (htracks : search.Tracks) {due : Event} (hdue : due ∈ search.code.events)
    (hat : search.explorer.schedule.eventAt? search.explorer.counter = some due)
    (hrecorded : search.matchesState = false)
    (hweighs : search.Weighs point due (search.weighed point)) {state : StateId}
    {since : Std.ExtTreeSet Event}
    (hsince : (search.advanced point due).explorer.visits.takenSince[state]? = some since) :
    ∃ position, 1 ≤ position ∧ position ≤ (search.advanced point due).explorer.counter ∧
      (search.advanced point due).Enters position state ∧
      ∀ event ∈ since, ∃ later, position ≤ later ∧
        later < (search.advanced point due).explorer.counter ∧
        (search.advanced point due).explorer.schedule.eventAt? later = some event := by
  have henters := h.enters_advanced hdue hrecorded hweighs
  obtain ⟨-, hcounter, hschedule, hvisits, -⟩ := h.advanced_same hdue hrecorded hweighs
  rw [hvisits, getElem?_takenSince_enter] at hsince
  rw [hcounter, hschedule]
  cases hold : search.explorer.visits.takenSince[state]? with
  | some before =>
    rw [hold] at hsince
    obtain ⟨position, hpositive, hbound, hstate, hall⟩ := htracks.only state before hold
    refine ⟨position, hpositive, by omega, (henters position state).mpr (Or.inl hstate), ?_⟩
    intro event hevent
    rw [← Option.some.inj hsince, Std.ExtTreeSet.mem_insert, Std.compare_eq_iff_eq] at hevent
    rcases hevent with rfl | hevent
    · exact ⟨_, hbound, Nat.lt_succ_self _, hat⟩
    · obtain ⟨later, hlater, hlt, hevent⟩ := hall event hevent
      exact ⟨later, hlater, by omega, hevent⟩
  | none =>
    rw [hold] at hsince
    simp only at hsince
    split at hsince
    · rename_i hentered
      refine ⟨search.explorer.counter + 1, by omega, Nat.le_refl _,
        (henters _ _).mpr (Or.inr ⟨rfl, hentered.symm⟩), fun event hevent => ?_⟩
      rw [← Option.some.inj hsince] at hevent
      exact absurd hevent (by simp)
    · exact absurd hsince (by simp)

/-- The execution under way stays tracked when the due event is executed. -/
theorem Tracks.advanced (h : search.Underway point waiting taken) (htracks : search.Tracks)
    {due : Event} (hdue : due ∈ search.code.events)
    (hat : search.explorer.schedule.eventAt? search.explorer.counter = some due)
    (hrecorded : search.matchesState = false)
    (hweighs : search.Weighs point due (search.weighed point))
    (hnew : 0 < search.explorer.counter → search.machine.isNew = false →
      search.explorer.coversAllEvents search.machine.state = false) :
    (search.advanced point due).Tracks := by
  obtain ⟨hcurrent, -, hschedule, -, htaken⟩ := h.advanced_same hdue hrecorded hweighs
  have hplace (position : Nat) :
      (search.advanced point due).explorer.knowledge.log.taken?
          ⟨(search.advanced point due).explorer.current, position⟩ =
        if position = search.explorer.counter then
          some ⟨due, search.machine.state, some point.id⟩
        else search.explorer.knowledge.log.taken? ⟨search.explorer.current, position⟩ := by
    rw [htaken, hcurrent]
    simp
  refine ⟨?_, fun position state hpositive hstate =>
      htracks.since_advanced h hdue hat hrecorded hweighs hpositive hstate,
    fun state since hsince => htracks.only_advanced h hdue hat hrecorded hweighs hsince, ?_⟩
  · intro position transition hposition
    rw [hplace] at hposition
    rw [hschedule]
    split at hposition
    · rename_i hhere
      rw [hhere, hat, ← Option.some.inj hposition]
    · exact htracks.due position transition hposition
  · intro first second transition other hpositive hlt hfirst hsecond hstate
    rw [hplace] at hfirst hsecond
    split at hfirst
    · rename_i hhere
      rw [if_neg (by omega)] at hsecond
      have hbound := h.explorer.lt_of_taken? hsecond
      omega
    · split at hsecond
      · rw [← Option.some.inj hsecond] at hstate ⊢
        exact not_due_again h htracks hat hnew hpositive hfirst hstate
      · exact htracks.distinct first second transition other hpositive hlt hfirst hsecond hstate

/-- After a restart the new execution is tracked. -/
theorem Tracks.restartedAt (h : search.Underway point waiting taken) {due : Event}
    (hdue : due ∈ search.code.events) {weighed : Explorer Values PatternFilter}
    (hweighs : search.Weighs point due weighed) (next : BacktrackPoint) (rest : Backlog)
    (values : Values) (isNew : Bool) (closed : List PointId) :
    (search.restartedAt weighed next rest values isNew closed).Tracks := by
  obtain ⟨-, hcounter, hvisits, hnothing⟩ :=
    h.restartedAt_same hdue hweighs next rest values isNew closed
  exact tracks_of_counter_eq_zero hcounter (by rw [hvisits]) hnothing

/-- The first execution is tracked from its start. -/
theorem tracks_start {program : Program} {config : ExploreConfig} {limit : Nat}
    (hstart : start program config limit = .ok search) (hreduce : config.stateReduction = true)
    (hevents : program.events ≠ []) : search.registerPoint.1.Tracks := by
  rw [registerPoint_start hstart hreduce hevents]
  exact tracks_of_counter_eq_zero rfl rfl fun position => taken?_registered program config _

end EventOrder.Search
