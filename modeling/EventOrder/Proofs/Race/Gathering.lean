import EventOrder.Proofs.Race.Propagation

/-!
# What walks gather, failed or not

A walk stops at a place that holds no transition, and what it learnt up to there stays. This file
says what holds of the knowledge however a walk ends: the executions and the predecessors are as
they were, and every point that was let in is a reordering for the state of a place that the walk
visited.
-/

namespace EventOrder

namespace Knowledge

/-- The later knowledge was come to by walks that visited only places of a kind: they leave the
executions and the predecessors as they are, and let points wait in the states of such places, each
with one event moved to the front of the reference order. -/
structure Gathers (knowledge : Knowledge) (stands : TransitionRef → Prop) (reference : List Event)
    (later : Knowledge) : Prop where
  /-- The executions stay as they are. -/
  log_eq : later.log = knowledge.log
  /-- So do the predecessors. -/
  predecessors_eq : later.predecessors = knowledge.predecessors
  /-- More points may wait. -/
  ledger : ∀ waiting taken, knowledge.backlog.Ledger waiting taken →
    ∃ more, later.backlog.Ledger (waiting ++ more) taken ∧
      ∀ point ∈ more, stands point.conflict ∧ ∃ transition event,
        knowledge.log.transition? point.conflict = some transition ∧
          point = .reorder transition.state event reference point.conflict

/-- Every recorded predecessor is a place of a kind. -/
def Rooted (knowledge : Knowledge) (stands : TransitionRef → Prop) : Prop :=
  ∀ state, ∀ place ∈ knowledge.predecessors.of state, stands place

variable {knowledge later last : Knowledge} {stands : TransitionRef → Prop}
  {reference : List Event}

/-- Without a walk no point is let in. -/
theorem Gathers.refl (knowledge : Knowledge) (stands : TransitionRef → Prop)
    (reference : List Event) : knowledge.Gathers stands reference knowledge where
  log_eq := rfl
  predecessors_eq := rfl
  ledger waiting taken hledger := ⟨[], by simpa using hledger, by simp⟩

/-- Walks follow one another. -/
theorem Gathers.trans (hfirst : knowledge.Gathers stands reference later)
    (hthen : later.Gathers stands reference last) : knowledge.Gathers stands reference last where
  log_eq := hthen.log_eq.trans hfirst.log_eq
  predecessors_eq := hthen.predecessors_eq.trans hfirst.predecessors_eq
  ledger waiting taken hledger := by
    obtain ⟨more, hmore, hgathered⟩ := hfirst.ledger waiting taken hledger
    obtain ⟨others, hothers, hthenGathered⟩ := hthen.ledger _ taken hmore
    refine ⟨more ++ others, by rwa [← List.append_assoc], fun point hpoint => ?_⟩
    rcases List.mem_append.mp hpoint with hold | hnew
    · exact hgathered point hold
    · rw [← hfirst.log_eq]
      exact hthenGathered point hnew

/-- The predecessors are places of the kind afterwards as well. -/
theorem Gathers.rooted (h : knowledge.Gathers stands reference later)
    (hknowledge : knowledge.Rooted stands) : later.Rooted stands :=
  fun state place hplace => hknowledge state place (h.predecessors_eq ▸ hplace)

end Knowledge

namespace Walk

variable {walk : Walk} {frame : Frame} {knowledge : Knowledge} {stands : TransitionRef → Prop}
  {reference : List Event}

/-- A walk under way from some knowledge whose frames stand at places of a kind. -/
structure Gathering (walk : Walk) (knowledge : Knowledge) (stands : TransitionRef → Prop)
    (reference : List Event) : Prop where
  /-- What is known now was come to by walks. -/
  gathers : knowledge.Gathers stands reference walk.knowledge
  /-- The frames to be visited stand at places of the kind. -/
  stands_of_frame : ∀ frame ∈ walk.stack, stands frame.place

/-- Absorbing a frame at a state that only places of the kind lead into goes on to such places. -/
private theorem Gathering.absorb (h : walk.Gathering knowledge stands reference) {state : StateId}
    (hstate : ∀ place ∈ knowledge.predecessors.of state, stands place) (frame : Frame) :
    (walk.absorb state frame).Gathering knowledge stands reference where
  gathers := ⟨h.gathers.log_eq, h.gathers.predecessors_eq, h.gathers.ledger⟩
  stands_of_frame other hother := by
    rcases mem_stack_absorb hother with hstack | ⟨hplace, -, -⟩
    · exact h.stands_of_frame other hstack
    · exact hstate other.place (h.gathers.predecessors_eq ▸ hplace)

/-- Calling for a reordering at a place of the kind lets a point wait in its state. -/
private theorem Gathering.call (h : walk.Gathering knowledge stands reference)
    {transition : Transition} {place : TransitionRef}
    (htransition : knowledge.log.transition? place = some transition) (hplace : stands place)
    (event : Event) :
    (walk.call (.reorder transition.state event reference place)).Gathering knowledge stands
      reference := by
  have hfirst : (BacktrackPoint.reorder transition.state event reference place).first? =
      some event := rfl
  refine ⟨⟨h.gathers.log_eq, h.gathers.predecessors_eq, fun waiting taken hledger => ?_⟩,
    h.stands_of_frame⟩
  exact Backlog.exists_ledger_add (h.gathers.ledger waiting taken hledger) hfirst
    ⟨hplace, transition, event, htransition, rfl⟩

/-- A visit leaves the frames at places of the kind, if only such places lead into its state and it
does not fail. -/
theorem Gathering.visit (h : walk.Gathering knowledge stands reference)
    {stack : List Frame} (hstack : walk.stack = frame :: stack)
    (hleads : ∀ transition, knowledge.log.transition? frame.place = some transition →
      ∀ place ∈ knowledge.predecessors.of transition.state, stands place) {next : Walk}
    (hvisit : { walk with stack }.visit reference frame = .ok next) :
    next.Gathering knowledge stands reference := by
  have hframe : stands frame.place := h.stands_of_frame frame (by simp [hstack])
  have hpopped : ({ walk with stack } : Walk).Gathering knowledge stands reference :=
    ⟨h.gathers, fun other hother => h.stands_of_frame other (by simp [hstack, hother])⟩
  obtain ⟨transition, hplace, hnext⟩ := visit_cases hvisit
  have htransition : knowledge.log.transition? frame.place = some transition := by
    rw [← h.gathers.log_eq]
    exact hplace
  have hstate := hleads transition htransition
  rcases hnext with ⟨-, rfl⟩ | ⟨rest, -, rfl⟩
  · exact hpopped.absorb hstate frame
  · exact (hpopped.call htransition hframe frame.event).absorb hstate _

/-- What every visit that does not fail keeps holds when a run ends, however it ends. -/
theorem run_keeps {motive : Walk → Prop}
    (visit : ∀ (walk : Walk) (frame : Frame) (stack : List Frame) (next : Walk),
      walk.stack = frame :: stack → { walk with stack }.visit reference frame = .ok next →
        motive walk → motive next)
    (steps : Nat) (h : motive walk) : motive (walk.run reference steps).1 := by
  induction steps generalizing walk with
  | zero => exact h
  | succ steps ih =>
    unfold run
    split
    · exact h
    · rename_i frame stack hstack
      split
      · rename_i next hvisit
        exact ih (visit walk frame stack next hstack hvisit h)
      · exact h

end Walk

namespace Knowledge

variable {knowledge : Knowledge} {stands : TransitionRef → Prop} {place : TransitionRef}

/-- What a walk has learnt stays when it ends, failed or not. -/
theorem propagate_fst (knowledge : Knowledge) (root : Frame) (reference : List Event) :
    (knowledge.propagate root reference).1 =
      ((Walk.start knowledge root).run reference knowledge.walkBound).1.knowledge := by
  unfold propagate
  split <;> rename_i hrun <;> rw [hrun]

/-- A walk from a place of the kind gathers from such places only. -/
theorem Rooted.propagate_gathers (h : knowledge.Rooted stands) (root : Frame)
    (hplace : stands root.place) (reference : List Event) :
    knowledge.Gathers stands reference (knowledge.propagate root reference).1 := by
  have hstart : (Walk.start knowledge root).Gathering knowledge stands reference := by
    refine ⟨.refl knowledge stands reference, fun frame hframe => ?_⟩
    rw [List.mem_singleton.mp hframe]
    exact hplace
  have hlast := Walk.run_keeps
    (motive := fun walk => walk.Gathering knowledge stands reference)
    (fun walk frame stack next hstack hvisit hwalk =>
      hwalk.visit hstack (fun transition _ => h transition.state) hvisit)
    knowledge.walkBound hstart
  rw [propagate_fst]
  exact hlast.gathers

/-- So does completing an event at such a place, or where nothing was recorded. -/
theorem Rooted.eventCompleted_gathers (h : knowledge.Rooted stands)
    (hplace : knowledge.log.footprint? place = none ∨ stands place) (reference : List Event) :
    knowledge.Gathers stands reference (knowledge.eventCompleted place reference).1 := by
  unfold eventCompleted
  cases hfootprint : knowledge.log.footprint? place with
  | none => exact .refl knowledge stands reference
  | some footprint =>
    dsimp only
    split
    · exact .refl knowledge stands reference
    · exact h.propagate_gathers _ (hplace.resolve_left (by simp [hfootprint])) reference

/-- So does replaying events against such a place. -/
private theorem Rooted.replay_gathers (h : knowledge.Rooted stands) (hplace : stands place)
    (state : StateId) (reference events : List Event) (created : Nat) :
    knowledge.Gathers stands reference
      (replay state place reference events knowledge created).1 := by
  induction events generalizing knowledge created with
  | nil => exact .refl knowledge stands reference
  | cons event events ih =>
    unfold replay
    cases knowledge.summary.get? state event with
    | none => exact ih h created
    | some footprint =>
      have hwalk := h.propagate_gathers ⟨place, event, footprint, true⟩ hplace reference
      dsimp only
      split
      · rename_i later more heq
        rw [heq] at hwalk
        exact hwalk.trans (ih (hwalk.rooted h) _)
      · rename_i later error heq
        rw [heq] at hwalk
        exact hwalk

/-- So does meeting a state again after such a place. -/
theorem Rooted.stateRevisited_gathers (h : knowledge.Rooted stands) (hplace : stands place)
    (state : StateId) (reference : List Event) :
    knowledge.Gathers stands reference (knowledge.stateRevisited state place reference).1 :=
  h.replay_gathers hplace state reference _ 0

end Knowledge

end EventOrder
