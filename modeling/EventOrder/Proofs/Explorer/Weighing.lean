import EventOrder.Proofs.Explorer.Underway

/-!
# What follows a recorded decision

Once a decision is recorded, the explorer learns from the event before it and from the states just
entered, and then either lets the decision go ahead or moves on to the next backtrack point. While
what was gathered is coherent none of these steps fails, and they change the knowledge only by
learning.
-/

namespace EventOrder.Explorer

variable {σ φ : Type} {explorer : Explorer σ φ} {events : List Event} {decisions : Nat}

/-- The explorer after it has learnt from a recorded decision. -/
def weighed (explorer : Explorer σ φ) : Explorer σ φ :=
  explorer.completePrevious.1.hasNothingNew.1

/-- Whether an execution that entered the state has nothing new to offer there: an earlier
execution entered it, or every event was taken since. -/
def isMatched (explorer : Explorer σ φ) (state : StateId) : Bool :=
  explorer.visits.isEarlier state || explorer.coversAllEvents state

/-- The knowledge of an explorer is coherent with the order in force. -/
theorem Underway.coherent_order (h : explorer.Underway events decisions) :
    explorer.knowledge.Coherent explorer.schedule.order :=
  h.coherent.congr fun _ => h.order.mem_iff.symm

section Steps

variable {motive : Knowledge → Prop}

/-- What holds before the event before a decision is completed, and is kept by that, holds
afterwards. -/
theorem completePrevious_induction (explorer : Explorer σ φ) (h : motive explorer.knowledge)
    (completes : ∀ place, explorer.previousPlace? = some place →
      ∃ later created, explorer.knowledge.eventCompleted place explorer.schedule.order =
        (later, .ok created) ∧ motive later) :
    ∃ later created, explorer.completePrevious =
      ({ explorer with knowledge := later }, .ok created) ∧ motive later := by
  unfold completePrevious
  cases hplace : explorer.previousPlace? with
  | none => exact ⟨explorer.knowledge, 0, rfl, h⟩
  | some place =>
    obtain ⟨later, created, hlater, hkept⟩ := completes place hplace
    exact ⟨later, created, by simp [Explorer.learn, hlater], hkept⟩

/-- What holds before a state is replayed, and is kept by each replay, holds afterwards. -/
private theorem revisit_induction (explorer : Explorer σ φ) {place : TransitionRef}
    {state : StateId} (h : motive explorer.knowledge)
    (replays : ∀ knowledge, motive knowledge →
      ∃ later created, knowledge.stateRevisited state place explorer.schedule.order =
        (later, .ok created) ∧ motive later) (times : Nat) :
    ∃ later, revisit place state times explorer = ({ explorer with knowledge := later }, .ok ()) ∧
      motive later := by
  induction times generalizing explorer with
  | zero => exact ⟨explorer.knowledge, rfl, h⟩
  | succ times ih =>
    obtain ⟨later, created, hlater, hkept⟩ := replays explorer.knowledge h
    obtain ⟨last, hlast, hthen⟩ := ih { explorer with knowledge := later } hkept
      replays
    exact ⟨last, by simp [revisit, Explorer.learn, hlater, hlast], hthen⟩

/-- What holds before states just entered are looked at, and is kept by each replay, holds
afterwards. The execution ends only at a matched state, and it does end at a matched state that has
a summary at any time. -/
private theorem matchStates_induction (explorer : Explorer σ φ) {place : TransitionRef}
    (h : motive explorer.knowledge)
    (states : List StateId) (replays : ∀ state ∈ states, ∀ knowledge, motive knowledge →
      ∃ later created, knowledge.stateRevisited state place explorer.schedule.order =
        (later, .ok created) ∧ motive later) (ends : Bool) :
    ∃ later ended, matchStates place states explorer ends =
        ({ explorer with knowledge := later }, .ok ended) ∧
      motive later ∧
      (ended = true → ends = true ∨ ∃ state ∈ states, explorer.isMatched state = true) ∧
      (ends = true → ended = true) ∧
      ∀ state ∈ states,
        (∀ knowledge, motive knowledge → knowledge.summary.containsState state = true) →
          explorer.isMatched state = true → ended = true := by
  induction states generalizing explorer ends with
  | nil => exact ⟨explorer.knowledge, ends, rfl, h, Or.inl, id, by simp⟩
  | cons state states ih =>
    have hrest (other : StateId) (hother : other ∈ states) :=
      replays other (List.mem_cons_of_mem _ hother)
    cases hknown : explorer.knowledge.summary.containsState state with
    | false =>
      obtain ⟨later, ended, hlater, hkept, honly, hends, hmatched⟩ := ih explorer h hrest ends
      refine ⟨later, ended, by simp [matchStates, hknown, hlater], hkept, ?_, hends, ?_⟩
      · intro hended
        rcases honly hended with hends | ⟨other, hother, hmatch⟩
        · exact Or.inl hends
        · exact Or.inr ⟨other, List.mem_cons_of_mem _ hother, hmatch⟩
      · intro other hother hcontains hmatch
        rcases List.mem_cons.mp hother with rfl | hother
        · exact absurd (hcontains _ h) (by simp [hknown])
        · exact hmatched other hother hcontains hmatch
    | true =>
      obtain ⟨first, hfirst, hbetween⟩ := revisit_induction explorer h
        (replays state List.mem_cons_self)
        ((explorer.isMatched state).toNat + (explorer.visits.isRepeated state).toNat)
      obtain ⟨later, ended, hlater, hkept, honly, hends, hmatched⟩ :=
        ih { explorer with knowledge := first } hbetween hrest
          (ends || explorer.isMatched state)
      have hstep : matchStates place (state :: states) explorer ends =
          matchStates place states { explorer with knowledge := first }
            (ends || explorer.isMatched state) := by
        unfold isMatched at hfirst
        simp [matchStates, hknown, hfirst, isMatched]
      refine ⟨later, ended, by rw [hstep, hlater], hkept, ?_, ?_, ?_⟩
      · intro hended
        rcases honly hended with hends | ⟨other, hother, hmatch⟩
        · rcases Bool.or_eq_true _ _ ▸ hends with hends | hmatch
          · exact Or.inl hends
          · exact Or.inr ⟨state, List.mem_cons_self, hmatch⟩
        · exact Or.inr ⟨other, List.mem_cons_of_mem _ hother, hmatch⟩
      · exact fun hbefore => hends (by simp [hbefore])
      · intro other hother hcontains hmatch
        rcases List.mem_cons.mp hother with rfl | hother
        · exact hends (by simp [hmatch])
        · exact hmatched other hother hcontains hmatch

/-- What holds before the states just entered are weighed, and is kept by each replay against the
place of the last decision, holds afterwards. The execution ends only at a matched state, and it
does end at a matched state that has a summary at any time, once a decision was made. -/
theorem hasNothingNew_induction (explorer : Explorer σ φ) (h : motive explorer.knowledge)
    (replays : ∀ place, explorer.previousPlace? = some place →
      ∀ state ∈ explorer.visits.recent, ∀ knowledge, motive knowledge → ∃ later created,
        knowledge.stateRevisited state place explorer.schedule.order = (later, .ok created) ∧
          motive later) :
    ∃ later ended, explorer.hasNothingNew = ({ explorer with knowledge := later }, .ok ended) ∧
      motive later ∧
      (ended = true → 0 < explorer.counter ∧
        ∃ state ∈ explorer.visits.recent, explorer.isMatched state = true) ∧
      (0 < explorer.counter → ∀ state ∈ explorer.visits.recent,
        (∀ knowledge, motive knowledge → knowledge.summary.containsState state = true) →
          explorer.isMatched state = true → ended = true) := by
  unfold hasNothingNew
  by_cases hcounter : explorer.counter = 0
  · have hplace : explorer.previousPlace? = none := by
      simp [previousPlace?, hcounter]
    simp only [hplace]
    exact ⟨explorer.knowledge, false, rfl, h, by simp, by simp [hcounter]⟩
  · have hplace : explorer.previousPlace? = some ⟨explorer.current, explorer.counter - 1⟩ := by
      simp [previousPlace?, hcounter]
    obtain ⟨later, ended, hlater, hkept, honly, -, hmatched⟩ :=
      matchStates_induction explorer h explorer.visits.recent.toList
        (fun state hstate => replays _ hplace state (Std.ExtTreeSet.mem_toList.mp hstate)) false
    simp only [hplace]
    refine ⟨later, ended, hlater, hkept, fun hended => ⟨by omega, ?_⟩, fun _ state hstate => ?_⟩
    · rcases honly hended with hfalse | ⟨state, hstate, hmatch⟩
      · exact absurd hfalse (by simp)
      · exact ⟨state, Std.ExtTreeSet.mem_toList.mp hstate, hmatch⟩
    · exact hmatched state (Std.ExtTreeSet.mem_toList.mpr hstate)

/-- A decision is recorded, the event before it is completed and the states just entered are
weighed, and then it is concluded. None of this fails if completing and replaying does not, and what
they keep holds afterwards. -/
theorem decide_induction {execution : Execution}
    (hget : explorer.knowledge.log.get? explorer.current = some execution)
    (hmade : execution.Made explorer.counter) (view : HostView σ) (point : DecisionPoint)
    (event : Event) (h : motive (explorer.noted view point.id event).knowledge)
    (completes : ∀ place, explorer.previousPlace? = some place → ∃ later created,
      (explorer.noted view point.id event).knowledge.eventCompleted place
        explorer.schedule.order = (later, .ok created) ∧ motive later)
    (replays : ∀ place, explorer.previousPlace? = some place →
      ∀ state ∈ explorer.visits.recent, ∀ knowledge, motive knowledge → ∃ later created,
        knowledge.stateRevisited state place explorer.schedule.order = (later, .ok created) ∧
          motive later) :
    ∃ later ended,
      (explorer.noted view point.id event).weighed =
        { explorer.noted view point.id event with knowledge := later } ∧
      motive later ∧
      explorer.decide view point event =
        { (explorer.noted view point.id event).weighed.conclude (ended || explorer.atMaxDepth) view
            point event with
          requests := explorer.capture view ++
            ((explorer.noted view point.id event).weighed.conclude (ended || explorer.atMaxDepth)
              view point event).requests } ∧
      (ended = true → 0 < explorer.counter ∧
        ∃ state ∈ explorer.visits.recent, explorer.isMatched state = true) ∧
      (0 < explorer.counter → ∀ state ∈ explorer.visits.recent,
        (∀ knowledge, motive knowledge → knowledge.summary.containsState state = true) →
          explorer.isMatched state = true → ended = true) := by
  obtain ⟨recorded, hrecorded, hnoted⟩ := recordDecision_eq hget hmade view point.id event
  obtain ⟨first, created, hfirst, hbetween⟩ :=
    completePrevious_induction (explorer.noted view point.id event) h completes
  obtain ⟨later, ended, hlater, hkept, honly, hmatched⟩ := hasNothingNew_induction
    { explorer.noted view point.id event with knowledge := first } hbetween replays
  have hweighed : (explorer.noted view point.id event).weighed =
      { explorer.noted view point.id event with knowledge := later } := by
    simp only [weighed, hfirst, hlater]
  refine ⟨later, ended, hweighed, hkept, ?_, honly, hmatched⟩
  rw [hweighed]
  simp only [decide, hrecorded, hnoted, hfirst, hlater]
  rfl

end Steps

/-- Propagating the event before a decision only learns and does not fail. -/
theorem Underway.completePrevious_eq (h : explorer.Underway events decisions)
    (hcounter : explorer.counter ≤ decisions) :
    ∃ later created, explorer.completePrevious =
        ({ explorer with knowledge := later }, .ok created) ∧
      explorer.knowledge.Learns explorer.schedule.order later := by
  refine completePrevious_induction explorer .refl fun place hplace => ?_
  obtain ⟨transition, htaken⟩ := h.taken_of_previousPlace? hcounter hplace
  exact h.coherent_order.eventCompleted_learns htaken

/-- A decision is recorded, learnt from and then concluded, and none of this fails. What is learnt
changes the knowledge only, and the execution ends only at a matched state or the greatest depth. -/
theorem Underway.decide_eq (h : explorer.Underway events explorer.counter) (view : HostView σ)
    (point : DecisionPoint) {event : Event} (hevent : event ∈ events) :
    ∃ later ended,
      (explorer.noted view point.id event).weighed =
        { explorer.noted view point.id event with knowledge := later } ∧
      (explorer.noted view point.id event).knowledge.Learns explorer.schedule.order later ∧
      explorer.decide view point event =
        { (explorer.noted view point.id event).weighed.conclude (ended || explorer.atMaxDepth) view
            point event with
          requests := explorer.capture view ++
            ((explorer.noted view point.id event).weighed.conclude (ended || explorer.atMaxDepth)
              view point event).requests } ∧
      (ended = true → 0 < explorer.counter ∧
        ∃ state ∈ explorer.visits.recent, explorer.isMatched state = true) ∧
      (0 < explorer.counter → ∀ state ∈ explorer.visits.recent,
        explorer.knowledge.summary.containsState state = true →
          explorer.isMatched state = true → ended = true) := by
  obtain ⟨execution, hget, hmade⟩ := h.made
  have hnoted := h.noted view point.id hevent
  have hcoherent := hnoted.coherent_order
  let kept (later : Knowledge) : Prop :=
    (explorer.noted view point.id event).knowledge.Learns explorer.schedule.order later ∧
      ∀ state, explorer.knowledge.summary.containsState state = true →
        later.summary.containsState state = true
  have hcompletes (place : TransitionRef) (hplace : explorer.previousPlace? = some place) :
      ∃ later created, (explorer.noted view point.id event).knowledge.eventCompleted place
        explorer.schedule.order = (later, .ok created) ∧ kept later := by
    obtain ⟨transition, htaken⟩ := hnoted.taken_of_previousPlace? (Nat.le_succ _) hplace
    obtain ⟨later, created, hlater, hlearns⟩ := hcoherent.eventCompleted_learns htaken
    exact ⟨later, created, hlater, hlearns, fun _ hknown => hlearns.containsState hknown⟩
  have hreplays (place : TransitionRef) (hplace : explorer.previousPlace? = some place)
      (state : StateId) (_ : state ∈ explorer.visits.recent) (knowledge : Knowledge)
      (hkept : kept knowledge) :
      ∃ later created, knowledge.stateRevisited state place explorer.schedule.order =
        (later, .ok created) ∧ kept later := by
    obtain ⟨hlearns, hcontains⟩ := hkept
    obtain ⟨transition, htaken⟩ := hnoted.taken_of_previousPlace? (Nat.le_succ _) hplace
    obtain ⟨later, created, hlater, hthen⟩ :=
      (hlearns.coherent hcoherent).stateRevisited_learns (by rw [hlearns.log_eq]; exact htaken)
        state
    exact ⟨later, created, hlater, hlearns.trans hthen,
      fun other hknown => hthen.containsState (hcontains other hknown)⟩
  obtain ⟨later, ended, hweighed, ⟨hlearns, -⟩, hdecide, honly, hmatched⟩ :=
    decide_induction hget hmade view point event ⟨.refl, fun _ hknown => hknown⟩ hcompletes
      hreplays
  exact ⟨later, ended, hweighed, hlearns, hdecide, honly,
    fun hcounter state hstate hknown =>
      hmatched hcounter state hstate fun _ hlater => hlater.2 state hknown⟩

/-- Weighing the states just entered only learns and does not fail. -/
theorem Underway.hasNothingNew_learns (h : explorer.Underway events decisions)
    (hcounter : explorer.counter ≤ decisions) :
    ∃ later ended, explorer.hasNothingNew = ({ explorer with knowledge := later }, .ok ended) ∧
      explorer.knowledge.Learns explorer.schedule.order later := by
  obtain ⟨later, ended, hlater, hlearns, -⟩ := hasNothingNew_induction explorer
    (motive := explorer.knowledge.Learns explorer.schedule.order) .refl
    fun place hplace state _ knowledge hlearns => by
      obtain ⟨transition, htaken⟩ := h.taken_of_previousPlace? hcounter hplace
      obtain ⟨later, created, hlater, hthen⟩ :=
        (hlearns.coherent h.coherent_order).stateRevisited_learns
          (by rw [hlearns.log_eq]; exact htaken) state
      exact ⟨later, created, hlater, hlearns.trans hthen⟩
  exact ⟨later, ended, hlater, hlearns⟩

end EventOrder.Explorer
