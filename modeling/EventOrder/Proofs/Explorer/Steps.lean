import EventOrder.Explorer.Decision

/-!
# The steps of a decision, failed or not

Between recording a decision and concluding it the explorer learns from the event before it and from
the states just entered. Each of these steps may fail on the way, and then it leaves behind what was
learnt up to there. This file holds whether or not they fail: learning changes only the knowledge,
and what every walk keeps of it is kept; and nothing else but the history and the snapshots changes
before the decision is concluded.
-/

namespace EventOrder.Explorer

variable {σ φ : Type} {motive : Knowledge → Prop}

/-- Propagating the accesses of the event before changes only the knowledge. -/
theorem completePrevious_keeps (explorer : Explorer σ φ) (h : motive explorer.knowledge)
    (completes : ∀ place, explorer.previousPlace? = some place →
      motive (explorer.knowledge.eventCompleted place explorer.schedule.order).1) :
    ∃ later, explorer.completePrevious.1 = { explorer with knowledge := later } ∧
      motive later := by
  unfold completePrevious
  cases hplace : explorer.previousPlace? with
  | none => exact ⟨explorer.knowledge, rfl, h⟩
  | some place => exact ⟨_, rfl, completes place hplace⟩

/-- Replaying a state changes only the knowledge. -/
private theorem revisit_keeps (explorer : Explorer σ φ) {place : TransitionRef} {state : StateId}
    (h : motive explorer.knowledge)
    (replays : ∀ knowledge, motive knowledge →
      motive (knowledge.stateRevisited state place explorer.schedule.order).1) (times : Nat) :
    ∃ later, (revisit place state times explorer).1 = { explorer with knowledge := later } ∧
      motive later := by
  induction times generalizing explorer with
  | zero => exact ⟨explorer.knowledge, rfl, h⟩
  | succ times ih =>
    have hreplayed := replays explorer.knowledge h
    simp only [revisit, Explorer.learn]
    cases houtcome :
        (explorer.knowledge.stateRevisited state place explorer.schedule.order).2 with
    | error => exact ⟨_, rfl, hreplayed⟩
    | ok created =>
      obtain ⟨later, hlater, hkept⟩ := ih { explorer with
        knowledge := (explorer.knowledge.stateRevisited state place explorer.schedule.order).1 }
        hreplayed replays
      exact ⟨later, hlater, hkept⟩

/-- Looking at the states just entered changes only the knowledge. -/
private theorem matchStates_keeps (explorer : Explorer σ φ) {place : TransitionRef}
    (h : motive explorer.knowledge) (states : List StateId)
    (replays : ∀ state ∈ states, ∀ knowledge, motive knowledge →
      motive (knowledge.stateRevisited state place explorer.schedule.order).1) (ends : Bool) :
    ∃ later, (matchStates place states explorer ends).1 = { explorer with knowledge := later } ∧
      motive later := by
  induction states generalizing explorer ends with
  | nil => exact ⟨explorer.knowledge, rfl, h⟩
  | cons state states ih =>
    have hrest (other : StateId) (hother : other ∈ states) :=
      replays other (List.mem_cons_of_mem _ hother)
    simp only [matchStates]
    split
    · exact ih explorer h hrest ends
    · obtain ⟨between, hbetween, hkept⟩ := revisit_keeps explorer h
        (replays state List.mem_cons_self)
        ((explorer.visits.isEarlier state || explorer.coversAllEvents state).toNat +
          (explorer.visits.isRepeated state).toNat)
      split
      · rename_i replayed heq
        obtain rfl : replayed = { explorer with knowledge := between } := by
          rw [← hbetween, heq]
        exact ih { explorer with knowledge := between } hkept hrest _
      · rename_i replayed error heq
        exact ⟨between, by rw [← hbetween, heq], hkept⟩

/-- Asking whether the execution has anything new to offer changes only the knowledge. -/
theorem hasNothingNew_keeps (explorer : Explorer σ φ) (h : motive explorer.knowledge)
    (replays : ∀ place, explorer.previousPlace? = some place →
      ∀ state ∈ explorer.visits.recent, ∀ knowledge, motive knowledge →
        motive (knowledge.stateRevisited state place explorer.schedule.order).1) :
    ∃ later, explorer.hasNothingNew.1 = { explorer with knowledge := later } ∧ motive later := by
  unfold hasNothingNew
  cases hplace : explorer.previousPlace? with
  | none => exact ⟨explorer.knowledge, rfl, h⟩
  | some place =>
    exact matchStates_keeps explorer h _
      (fun state hstate => replays place hplace state (Std.ExtTreeSet.mem_toList.mp hstate)) false

/-- Recording a decision changes only the knowledge and the history. -/
private theorem recordDecision_keeps (explorer : Explorer σ φ) (transition : Transition) :
    ∃ knowledge history,
      (explorer.recordDecision transition).1 = { explorer with knowledge, history } := by
  unfold recordDecision
  dsimp only
  split
  · exact ⟨_, _, rfl⟩
  · split
    · split <;> exact ⟨_, _, rfl⟩
    · split <;> exact ⟨_, _, rfl⟩

/-- What is left of a decision for an event: it fails or is concluded, and up to then only the
knowledge, the history and the snapshots change. -/
inductive DecideSteps (explorer : Explorer σ φ) (view : HostView σ) (point : DecisionPoint)
    (event : Event) : Reply σ φ → Prop
  | /-- Recording or learning has failed. -/
    failed (knowledge : Knowledge) (history : Array ExecutionStart)
      (snapshots : Std.ExtTreeMap StateId σ) (requests : List (HostRequest σ))
      (error : ExplorationError) :
      DecideSteps explorer view point event
        ⟨{ explorer with knowledge, history, snapshots }, point, requests, .error error⟩
  | /-- The decision is concluded. -/
    concluded (knowledge : Knowledge) (history : Array ExecutionStart)
      (snapshots : Std.ExtTreeMap StateId σ) (requests : List (HostRequest σ)) (ends : Bool) :
      DecideSteps explorer view point event
        (let reply := ({ explorer with knowledge, history, snapshots } : Explorer σ φ).conclude ends
          view point event
        { reply with requests := requests ++ reply.requests })

/-- Every decision takes these steps. -/
theorem decide_steps (explorer : Explorer σ φ) (view : HostView σ) (point : DecisionPoint)
    (event : Event) : explorer.DecideSteps view point event (explorer.decide view point event) := by
  obtain ⟨knowledge, history, hrecorded⟩ :=
    explorer.recordDecision_keeps ⟨event, view.state, some point.id⟩
  unfold decide
  split
  · rename_i recorded error heq
    rw [heq] at hrecorded
    obtain rfl : recorded = _ := hrecorded
    exact .failed knowledge history explorer.snapshots [] error
  · rename_i recorded place heq
    rw [heq] at hrecorded
    obtain ⟨noted, snapshots, hnoted⟩ : ∃ noted snapshots,
        ((recorded.notePlace point.id place).keepSnapshot view).1 =
          { explorer with knowledge := noted, history, snapshots } := by
      obtain rfl : recorded = _ := hrecorded
      unfold keepSnapshot
      split <;> exact ⟨_, _, rfl⟩
    obtain ⟨first, hfirst, -⟩ := completePrevious_keeps (motive := fun _ => True)
      ((recorded.notePlace point.id place).keepSnapshot view).1 trivial fun _ _ => trivial
    rw [hnoted] at hfirst
    dsimp only
    split
    · rename_i completed error heq
      rw [hnoted] at heq
      rw [heq] at hfirst
      obtain rfl : completed = _ := hfirst
      exact .failed first history snapshots _ error
    · rename_i completed created heq
      rw [hnoted] at heq
      rw [heq] at hfirst
      obtain ⟨last, hlast, -⟩ := completed.hasNothingNew_keeps (motive := fun _ => True) trivial
        fun _ _ _ _ _ _ => trivial
      obtain rfl : completed = _ := hfirst
      split
      · rename_i weighed error heq
        rw [heq] at hlast
        obtain rfl : weighed = _ := hlast
        exact .failed last history snapshots _ error
      · rename_i weighed ends heq
        rw [heq] at hlast
        obtain rfl : weighed = _ := hlast
        exact .concluded last history snapshots _ _

section Advancing

variable {explorer : Explorer σ φ}

/-- When nothing is reduced a decision is only counted. -/
theorem choiceAdvanced_of_not_reducing (hreducing : explorer.reducing = false) (view : HostView σ)
    (point : DecisionPoint) :
    explorer.choiceAdvanced view point =
      ⟨{ explorer with statistics := explorer.statistics.count }, point, [], .ok .proceed⟩ := by
  simp [choiceAdvanced, hreducing]

/-- When no event is due the host goes on as it is. -/
theorem choiceAdvanced_of_not_due (hreducing : explorer.reducing = true)
    (hdue : explorer.adoptPending.schedule.eventAt? explorer.adoptPending.counter = none)
    (view : HostView σ) (point : DecisionPoint) :
    explorer.choiceAdvanced view point = ⟨explorer.adoptPending, point, [], .ok .proceed⟩ := by
  simp [choiceAdvanced, hreducing, hdue]

/-- The decision is made for the event that is due. -/
theorem choiceAdvanced_of_due (hreducing : explorer.reducing = true) {event : Event}
    (hdue : explorer.adoptPending.schedule.eventAt? explorer.adoptPending.counter = some event)
    (view : HostView σ) (point : DecisionPoint) :
    explorer.choiceAdvanced view point =
      explorer.adoptPending.decide view (point.force event) event := by
  simp [choiceAdvanced, hreducing, hdue]

end Advancing

/-- What is left of the end of a path: learning from the last event changes only the knowledge, and
then the explorer moves on. -/
inductive PathSteps (explorer : Explorer σ φ) (view : HostView σ) (point : DecisionPoint) :
    Reply σ φ → Prop
  | /-- Transitions are only counted. -/
    counted (hreducing : explorer.reducing = false) :
      PathSteps explorer view point ⟨explorer, point, [], .ok .proceed⟩
  | /-- Learning has failed. -/
    failed (knowledge : Knowledge) (error : ExplorationError) :
      PathSteps explorer view point ⟨{ explorer with knowledge }, point, [], .error error⟩
  | /-- The explorer cannot move on. -/
    stuck (knowledge : Knowledge) :
      PathSteps explorer view point
        (({ explorer with knowledge } : Explorer σ φ).moveOn view point)
  | /-- The explorer moves on. -/
    moved (knowledge : Knowledge) :
      PathSteps explorer view point
        (let reply := ({ explorer with knowledge } : Explorer σ φ).moveOn view point
        { reply with explorer := reply.explorer.countDecision })

/-- The end of every path takes these steps. -/
theorem pathMatched_steps (explorer : Explorer σ φ) (view : HostView σ) (point : DecisionPoint) :
    explorer.PathSteps view point (explorer.pathMatched view point) := by
  obtain ⟨knowledge, hlearnt, -⟩ := explorer.completePrevious_keeps (motive := fun _ => True)
    trivial fun _ _ => trivial
  unfold pathMatched
  split
  · rename_i hcounts
    exact .counted (by simpa using hcounts)
  · split
    · rename_i completed error heq
      rw [heq] at hlearnt
      obtain rfl : completed = _ := hlearnt
      exact .failed knowledge error
    · rename_i completed created heq
      rw [heq] at hlearnt
      obtain rfl : completed = _ := hlearnt
      dsimp only
      split
      · exact .stuck knowledge
      · exact .moved knowledge

end EventOrder.Explorer
