import EventOrder.Proofs.Race.Propagation

/-!
# Walks under any order

The order that walks take as their reference may change from round to round, and events that are
summarised need not be in it. Still no walk fails as long as every recorded predecessor was taken,
and the points that walks let wait are to be tried in states that transitions were taken in.
-/

namespace EventOrder

namespace Knowledge

/-- Every recorded predecessor is a place that was taken. -/
def Grounded (knowledge : Knowledge) : Prop :=
  ∀ state, ∀ place ∈ knowledge.predecessors.of state,
    ∃ transition, knowledge.log.taken? place = some transition

/-- The later knowledge was come to by walks: they leave the executions and the predecessors as they
are and let points wait in states that transitions were taken in. -/
structure Calls (knowledge later : Knowledge) : Prop where
  /-- The executions stay as they are. -/
  log_eq : later.log = knowledge.log
  /-- So do the predecessors. -/
  predecessors_eq : later.predecessors = knowledge.predecessors
  /-- More points may wait, each in the state of the transition that called for it. -/
  ledger : ∀ waiting taken, knowledge.backlog.Ledger waiting taken →
    ∃ more, later.backlog.Ledger (waiting ++ more) taken ∧
      ∀ point ∈ more, ∃ transition, knowledge.log.taken? point.conflict = some transition ∧
        point.state = transition.state

variable {knowledge later last : Knowledge} {reference : List Event}

/-- Without a walk no point is let in. -/
theorem Calls.refl (knowledge : Knowledge) : knowledge.Calls knowledge where
  log_eq := rfl
  predecessors_eq := rfl
  ledger waiting taken hledger := ⟨[], by simpa using hledger, by simp⟩

/-- Walks follow one another. -/
theorem Calls.trans (hfirst : knowledge.Calls later) (hthen : later.Calls last) :
    knowledge.Calls last where
  log_eq := hthen.log_eq.trans hfirst.log_eq
  predecessors_eq := hthen.predecessors_eq.trans hfirst.predecessors_eq
  ledger waiting taken hledger := by
    obtain ⟨more, hmore, hcalled⟩ := hfirst.ledger waiting taken hledger
    obtain ⟨others, hothers, hcalledThen⟩ := hthen.ledger _ taken hmore
    refine ⟨more ++ others, by rwa [← List.append_assoc], fun point hpoint => ?_⟩
    rcases List.mem_append.mp hpoint with hold | hnew
    · exact hcalled point hold
    · obtain ⟨transition, htaken, hstate⟩ := hcalledThen point hnew
      exact ⟨transition, hfirst.log_eq ▸ htaken, hstate⟩

/-- Whatever was summarised, no walk takes a predecessor back. -/
theorem Calls.grounded (h : knowledge.Calls later) (hknowledge : knowledge.Grounded) :
    later.Grounded := by
  intro state place hplace
  rw [h.log_eq]
  exact hknowledge state place (h.predecessors_eq ▸ hplace)

end Knowledge

namespace Walk

variable {walk : Walk} {frame : Frame} {knowledge : Knowledge} {reference : List Event}

/-- A walk under way from some knowledge whose frames stand at places that were taken. -/
structure Calling (walk : Walk) (knowledge : Knowledge) : Prop where
  /-- What is known now was come to by walks. -/
  calls : knowledge.Calls walk.knowledge
  /-- The frames to be visited stand at places that were taken. -/
  taken_of_frame : ∀ frame ∈ walk.stack,
    ∃ transition, knowledge.log.taken? frame.place = some transition

/-- Absorbing a frame goes on to places that were taken. -/
private theorem Calling.absorb (h : walk.Calling knowledge) (hknowledge : knowledge.Grounded)
    (state : StateId) (frame : Frame) : (walk.absorb state frame).Calling knowledge where
  calls := ⟨h.calls.log_eq, h.calls.predecessors_eq, h.calls.ledger⟩
  taken_of_frame other hother := by
    rcases mem_stack_absorb hother with hstack | ⟨hplace, -, -⟩
    · exact h.taken_of_frame other hstack
    · exact hknowledge state other.place (h.calls.predecessors_eq ▸ hplace)

/-- Calling for a reordering at a place that was taken lets a point wait in its state. -/
private theorem Calling.call (h : walk.Calling knowledge) {transition : Transition}
    {place : TransitionRef} (htaken : knowledge.log.taken? place = some transition)
    (event : Event) (reference : List Event) :
    (walk.call (.reorder transition.state event reference place)).Calling knowledge := by
  have hfirst : (BacktrackPoint.reorder transition.state event reference place).first? =
      some event := rfl
  refine ⟨⟨h.calls.log_eq, h.calls.predecessors_eq, fun waiting taken hledger => ?_⟩,
    h.taken_of_frame⟩
  exact Backlog.exists_ledger_add (h.calls.ledger waiting taken hledger) hfirst
    ⟨transition, htaken, rfl⟩

/-- A visit does not fail and leaves the frames at places that were taken. -/
theorem Calling.visit (h : walk.Calling knowledge) (hknowledge : knowledge.Grounded)
    (reference : List Event) {stack : List Frame} (hstack : walk.stack = frame :: stack) :
    ∃ next, { walk with stack }.visit reference frame = .ok next ∧ next.Calling knowledge := by
  obtain ⟨transition, htaken⟩ := h.taken_of_frame frame (by simp [hstack])
  have hpopped : ({ walk with stack } : Walk).Calling knowledge :=
    ⟨h.calls, fun other hother => h.taken_of_frame other (by simp [hstack, hother])⟩
  have hplace : ({ walk with stack } : Walk).knowledge.log.transition? frame.place =
      some transition := by
    rw [h.calls.log_eq]
    exact ExecutionLog.transition?_of_taken? htaken
  cases hconflict : ({ walk with stack } : Walk).conflictRest? frame transition with
  | none =>
    exact ⟨_, visit_of_conflictRest?_eq_none hplace hconflict, hpopped.absorb hknowledge _ frame⟩
  | some rest =>
    exact ⟨_, visit_of_conflictRest?_eq_some hplace hconflict,
      (hpopped.call htaken frame.event reference).absorb hknowledge _ _⟩

end Walk

namespace Knowledge

variable {knowledge : Knowledge} {place : TransitionRef} {transition : Transition}

/-- A walk from a place that was taken does not fail. -/
theorem Grounded.propagate_calls (h : knowledge.Grounded) (root : Frame)
    (hplace : knowledge.log.taken? root.place = some transition) (reference : List Event) :
    ∃ later created, knowledge.propagate root reference = (later, .ok created) ∧
      knowledge.Calls later := by
  have hstart : (Walk.start knowledge root).Calling knowledge := by
    refine ⟨.refl knowledge, fun frame hframe => ?_⟩
    rw [List.mem_singleton.mp hframe]
    exact ⟨transition, hplace⟩
  obtain ⟨last, hpropagate, -, hlast⟩ := propagate_induction
    (motive := fun walk => walk.Calling knowledge) hstart
    fun walk frame stack hstack hwalk => hwalk.visit h reference hstack
  exact ⟨_, _, hpropagate, hlast.calls⟩

/-- Completing an event does not fail where it was taken, or where nothing was recorded. -/
theorem Grounded.eventCompleted_calls (h : knowledge.Grounded)
    (hplace : knowledge.log.footprint? place = none ∨
      ∃ transition, knowledge.log.taken? place = some transition) (reference : List Event) :
    ∃ later created, knowledge.eventCompleted place reference = (later, .ok created) ∧
      knowledge.Calls later := by
  unfold eventCompleted
  cases hfootprint : knowledge.log.footprint? place with
  | none => exact ⟨knowledge, 0, rfl, .refl knowledge⟩
  | some footprint =>
    obtain ⟨transition, htaken⟩ := hplace.resolve_left (by simp [hfootprint])
    simp only [transitionAt, ExecutionLog.transition?_of_taken? htaken]
    exact h.propagate_calls _ htaken reference

/-- Meeting a state again does not fail after a place that was taken. -/
theorem Grounded.stateRevisited_calls (h : knowledge.Grounded)
    (hplace : knowledge.log.taken? place = some transition) (state : StateId)
    (reference : List Event) :
    ∃ later created, knowledge.stateRevisited state place reference = (later, .ok created) ∧
      knowledge.Calls later := by
  refine replay_induction (fun between event footprint hcalls _ => ?_) _ 0 (.refl knowledge)
  obtain ⟨later, created, hpropagate, hthen⟩ := (hcalls.grounded h).propagate_calls
    ⟨place, event, footprint, true⟩ (by rw [hcalls.log_eq]; exact hplace) reference
  exact ⟨later, created, hpropagate, hcalls.trans hthen⟩

end Knowledge

end EventOrder
