import EventOrder.Proofs.Race.Absorption
import EventOrder.Proofs.Race.Ledger
import EventOrder.Proofs.Trace.Taken
import EventOrder.Race.Walk

/-!
# What a walk learns

A backward walk changes two things only: it absorbs footprints into the summary and calls for
reorderings at places that were taken. On coherent knowledge, where every recorded predecessor was
taken, no walk fails, so completing an event and meeting a state again always succeed.
-/

namespace EventOrder

namespace Knowledge

/-- Every recorded predecessor is a place that was taken, and only known events occur. -/
structure Coherent (knowledge : Knowledge) (events : List Event) : Prop where
  /-- A place that leads into a state was taken. -/
  taken_of_predecessor : ∀ state, ∀ place ∈ knowledge.predecessors.of state,
    ∃ transition, knowledge.log.taken? place = some transition
  /-- The events taken are known. -/
  event_of_taken : ∀ place transition, knowledge.log.taken? place = some transition →
    transition.event ∈ events
  /-- The events that are summarised are known. -/
  event_of_summary : ∀ state event, (knowledge.summary.get? state event).isSome = true →
    event ∈ events

/-- Knowledge is coherent with any list of the same events. -/
theorem Coherent.congr {knowledge : Knowledge} {events others : List Event}
    (h : knowledge.Coherent events) (hsame : ∀ event, event ∈ events ↔ event ∈ others) :
    knowledge.Coherent others where
  taken_of_predecessor := h.taken_of_predecessor
  event_of_taken place transition htaken := (hsame _).mp (h.event_of_taken place transition htaken)
  event_of_summary state event hentry := (hsame _).mp (h.event_of_summary state event hentry)

/-- The accesses that a walk can carry for an event. They were recorded where the event was taken or
are summarised for it, or they were carried for an earlier event up to a place of this one that they
conflicted with. -/
inductive Carries (knowledge : Knowledge) : Event → Footprint → Prop
  | recorded {place : TransitionRef} {transition : Transition} {footprint : Footprint}
      (htaken : knowledge.log.taken? place = some transition)
      (hfootprint : knowledge.log.footprint? place = some footprint) :
      Carries knowledge transition.event footprint
  | summarised {state : StateId} {event : Event} {footprint : Footprint}
      (hentry : knowledge.summary.get? state event = some footprint) :
      Carries knowledge event footprint
  | part {event : Event} {footprint part : Footprint} (hcarries : Carries knowledge event footprint)
      (hpart : ∀ access ∈ part, access ∈ footprint) : Carries knowledge event part
  | merge {event : Event} {footprint more : Footprint}
      (hcarries : Carries knowledge event footprint) (hmore : Carries knowledge event more) :
      Carries knowledge event (footprint.merge more)
  | handed {event : Event} {footprint recorded rest : Footprint} {place : TransitionRef}
      {transition : Transition} (hcarries : Carries knowledge event footprint)
      (htaken : knowledge.log.taken? place = some transition)
      (hrecorded : knowledge.log.footprint? place = some recorded)
      (hother : transition.event ≠ event)
      (hconflict : footprint.takeConflict? recorded = some rest) :
      Carries knowledge transition.event rest

/-- The knowledge that absorbing carried footprints leads to, and calling for the events they are
carried for at taken places that they conflict with. -/
inductive Learns (reference : List Event) (knowledge : Knowledge) : Knowledge → Prop
  | refl : Learns reference knowledge knowledge
  | absorb {later : Knowledge} (state : StateId) (event : Event) (footprint : Footprint)
      (hlearns : Learns reference knowledge later) (hevent : event ∈ reference)
      (hcarries : knowledge.Carries event footprint) :
      Learns reference knowledge
        { later with summary := (later.summary.absorb state event footprint).2 }
  | call {later : Knowledge} {transition : Transition} {footprint recorded rest : Footprint}
      (place : TransitionRef) (event : Event) (hlearns : Learns reference knowledge later)
      (htaken : knowledge.log.taken? place = some transition) (hevent : event ∈ reference)
      (hcarries : knowledge.Carries event footprint)
      (hrecorded : knowledge.log.footprint? place = some recorded)
      (hother : transition.event ≠ event)
      (hconflict : footprint.takeConflict? recorded = some rest) :
      Learns reference knowledge
        { later with
          backlog := (later.backlog.add (.reorder transition.state event reference place)).2 }

namespace Learns

variable {reference : List Event} {knowledge later last : Knowledge}

/-- Learning leaves the executions as they are. -/
theorem log_eq (h : Learns reference knowledge later) : later.log = knowledge.log := by
  induction h with
  | refl => rfl
  | absorb _ _ _ _ _ _ ih => exact ih
  | call _ _ _ _ _ _ _ _ _ ih => exact ih

/-- Learning leaves the predecessors as they are. -/
theorem predecessors_eq (h : Learns reference knowledge later) :
    later.predecessors = knowledge.predecessors := by
  induction h with
  | refl => rfl
  | absorb _ _ _ _ _ _ ih => exact ih
  | call _ _ _ _ _ _ _ _ _ ih => exact ih

/-- Learning leaves the places at which states were left. -/
theorem reached_eq (h : Learns reference knowledge later) : later.reached = knowledge.reached := by
  induction h with
  | refl => rfl
  | absorb _ _ _ _ _ _ ih => exact ih
  | call _ _ _ _ _ _ _ _ _ ih => exact ih

/-- A state with a summary keeps one. -/
theorem containsState (h : Learns reference knowledge later) {state : StateId}
    (hstate : knowledge.summary.containsState state = true) :
    later.summary.containsState state = true := by
  induction h with
  | refl => exact hstate
  | absorb _ _ _ _ _ _ ih => exact Summary.containsState_absorb ih _ _ _
  | call _ _ _ _ _ _ _ _ _ ih => exact ih

/-- Whatever is summarised later could be carried before. -/
theorem carries_of_summary (h : Learns reference knowledge later) {state : StateId} {event : Event}
    {footprint : Footprint} (hentry : later.summary.get? state event = some footprint) :
    knowledge.Carries event footprint := by
  induction h generalizing footprint with
  | refl => exact .summarised hentry
  | @absorb later absorbed other more _ _ hcarries ih =>
    simp only [Summary.get?_absorb] at hentry
    split at hentry
    · rename_i hsame
      obtain ⟨-, rfl, rfl⟩ := hsame
      rw [← Option.some.inj hentry, Summary.footprintAt]
      cases hbefore : later.summary.get? absorbed other with
      | none => simpa using hcarries
      | some before => exact .merge (ih hbefore) hcarries
    · exact ih hentry
  | call _ _ _ _ _ _ _ _ _ ih => exact ih hentry

/-- Whatever can be carried later could be carried before. -/
theorem carries (h : Learns reference knowledge later) {event : Event} {footprint : Footprint}
    (hcarries : later.Carries event footprint) : knowledge.Carries event footprint := by
  induction hcarries with
  | recorded htaken hfootprint =>
    rw [h.log_eq] at htaken hfootprint
    exact .recorded htaken hfootprint
  | summarised hentry => exact h.carries_of_summary hentry
  | part _ hpart ih => exact ih.part hpart
  | merge _ _ ih hmore => exact ih.merge hmore
  | handed _ htaken hrecorded hother hconflict ih =>
    rw [h.log_eq] at htaken hrecorded
    exact ih.handed htaken hrecorded hother hconflict

/-- Learning goes on from where it had come to. -/
theorem trans (hfirst : Learns reference knowledge later) (hthen : Learns reference later last) :
    Learns reference knowledge last := by
  induction hthen with
  | refl => exact hfirst
  | absorb state event footprint _ hevent hcarries ih =>
    exact ih.absorb state event footprint hevent (hfirst.carries hcarries)
  | call place event _ htaken hevent hcarries hrecorded hother hconflict ih =>
    rw [hfirst.log_eq] at htaken hrecorded
    exact ih.call place event htaken hevent (hfirst.carries hcarries) hrecorded hother hconflict

/-- Learning keeps knowledge coherent. -/
theorem coherent (h : Learns reference knowledge later)
    (hknowledge : knowledge.Coherent reference) : later.Coherent reference := by
  induction h with
  | refl => exact hknowledge
  | absorb state event footprint _ hevent _ ih =>
    refine ⟨ih.taken_of_predecessor, ih.event_of_taken, fun other another hentry => ?_⟩
    simp only [Summary.get?_absorb] at hentry
    split at hentry
    · rename_i hsame
      exact hsame.2.2 ▸ hevent
    · exact ih.event_of_summary other another hentry
  | call _ _ _ _ _ _ _ _ _ ih =>
    exact ⟨ih.taken_of_predecessor, ih.event_of_taken, ih.event_of_summary⟩

/-- What learning admits to the backlog waits behind all other points: it is to be tried in a state
that a transition was taken in, and its schedule puts one event of the reference order first. -/
theorem ledger {waiting taken : List BacktrackPoint} (h : Learns reference knowledge later)
    (hledger : knowledge.backlog.Ledger waiting taken) :
    ∃ more, later.backlog.Ledger (waiting ++ more) taken ∧
      ∀ point ∈ more, ∃ transition, knowledge.log.taken? point.conflict = some transition ∧
        ∃ event ∈ reference, point = .reorder transition.state event reference point.conflict := by
  induction h with
  | refl => exact ⟨[], by simpa using hledger, by simp⟩
  | absorb _ _ _ _ _ _ ih => exact ih
  | @call last transition _ _ _ place event _ htaken hevent _ _ _ _ ih =>
    have hfirst : (BacktrackPoint.reorder transition.state event reference place).first? =
        some event := rfl
    exact Backlog.exists_ledger_add ih hfirst ⟨transition, htaken, event, hevent, rfl⟩

end Learns

end Knowledge

/-- Putting one event of an order first gives an order of the same events. -/
theorem BacktrackPoint.perm_schedule_reorder {state : StateId} {event : Event}
    {reference : List Event} {conflict : TransitionRef} (hreference : reference.Nodup)
    (hevent : event ∈ reference) :
    (BacktrackPoint.reorder state event reference conflict).schedule.Perm reference := by
  change (event :: reference.filter (· ≠ event)).Perm reference
  have hothers : reference.filter (· ≠ event) = reference.erase event := by
    rw [hreference.erase_eq_filter]
    refine List.filter_congr fun other _ => ?_
    by_cases hsame : other = event <;> simp [hsame]
  rw [hothers]
  exact (List.perm_cons_erase hevent).symm

namespace Walk

/-- What is left of a frame's footprint once its conflict with its place is taken out, when there
is one. -/
def conflictRest? (walk : Walk) (frame : Frame) (transition : Transition) : Option Footprint :=
  if frame.check = true ∧ transition.event ≠ frame.event then
    (walk.knowledge.log.footprint? frame.place).bind frame.footprint.takeConflict?
  else none

/-- Calls for a reordering and counts it when it is admitted. -/
def call (walk : Walk) (point : BacktrackPoint) : Walk :=
  { walk with
    knowledge := { walk.knowledge with backlog := (walk.knowledge.backlog.add point).2 }
    created := if (walk.knowledge.backlog.add point).1 then walk.created + 1 else walk.created }

/-- A place that must hold a transition does. -/
theorem transitionAt_eq {knowledge : Knowledge} {place : TransitionRef}
    {transition : Transition} (h : knowledge.log.transition? place = some transition) :
    knowledge.transitionAt place = .ok transition := by
  simp [Knowledge.transitionAt, h]

variable {walk : Walk} {frame : Frame} {transition : Transition} {reference : List Event}

/-- A conflict is one with the accesses recorded for another event. -/
theorem of_conflictRest?_eq_some {rest : Footprint}
    (h : walk.conflictRest? frame transition = some rest) :
    transition.event ≠ frame.event ∧
      ∃ recorded, walk.knowledge.log.footprint? frame.place = some recorded ∧
        frame.footprint.takeConflict? recorded = some rest := by
  unfold conflictRest? at h
  split at h
  · rename_i hchecked
    exact ⟨hchecked.2, Option.bind_eq_some_iff.mp h⟩
  · exact absurd h (by simp)

/-- Without a conflict the frame goes on as it is. -/
theorem settleConflict_of_conflictRest?_eq_none
    (hplace : walk.knowledge.log.transition? frame.place = some transition)
    (hrest : walk.conflictRest? frame transition = none) :
    walk.settleConflict reference frame = .ok (walk, frame) := by
  have htransition := transitionAt_eq hplace
  unfold conflictRest? at hrest
  unfold settleConflict Knowledge.takeConflict?
  cases hcheck : frame.check with
  | false => simp [pure, Except.pure]
  | true =>
    cases hfootprint : walk.knowledge.log.footprint? frame.place with
    | none => simp [htransition, bind, Except.bind, pure, Except.pure]
    | some recorded =>
      by_cases hsame : transition.event = frame.event
      · simp [htransition, hsame, bind, Except.bind, pure, Except.pure]
      · have hnone : frame.footprint.takeConflict? recorded = none := by
          simpa [hcheck, hsame, hfootprint] using hrest
        simp [htransition, hsame, hnone, bind, Except.bind, pure, Except.pure]

/-- With a conflict the frame's event is called for at the place, and what is left goes on for the
event taken there. -/
theorem settleConflict_of_conflictRest?_eq_some {rest : Footprint}
    (hplace : walk.knowledge.log.transition? frame.place = some transition)
    (hrest : walk.conflictRest? frame transition = some rest) :
    walk.settleConflict reference frame =
      .ok (walk.call (.reorder transition.state frame.event reference frame.place),
        { frame with event := transition.event, footprint := rest }) := by
  have htransition := transitionAt_eq hplace
  unfold conflictRest? at hrest
  split at hrest
  · rename_i hchecked
    obtain ⟨recorded, hfootprint, htake⟩ := Option.bind_eq_some_iff.mp hrest
    unfold settleConflict Knowledge.takeConflict? Knowledge.callFor
    simp [htransition, hchecked.1, hchecked.2, hfootprint, htake, bind, Except.bind, pure,
      Except.pure, call]
  · exact absurd hrest (by simp)

/-- A visit fails where no transition was taken. -/
theorem visit_of_transition?_eq_none
    (hplace : walk.knowledge.log.transition? frame.place = none) :
    walk.visit reference frame = .error (.unknownTransition frame.place) := by
  simp [visit, Knowledge.transitionAt, hplace, bind, Except.bind]

/-- Without a conflict the frame is absorbed as it is. -/
theorem visit_of_conflictRest?_eq_none
    (hplace : walk.knowledge.log.transition? frame.place = some transition)
    (hrest : walk.conflictRest? frame transition = none) :
    walk.visit reference frame = .ok (walk.absorb transition.state frame) := by
  simp [visit, transitionAt_eq hplace, settleConflict_of_conflictRest?_eq_none hplace hrest, bind,
    Except.bind, pure, Except.pure]

/-- With a conflict the frame's event is called for at the place, and what is left is absorbed for
the event taken there. -/
theorem visit_of_conflictRest?_eq_some {rest : Footprint}
    (hplace : walk.knowledge.log.transition? frame.place = some transition)
    (hrest : walk.conflictRest? frame transition = some rest) :
    walk.visit reference frame =
      .ok ((walk.call (.reorder transition.state frame.event reference frame.place)).absorb
        transition.state { frame with event := transition.event, footprint := rest }) := by
  simp [visit, transitionAt_eq hplace, settleConflict_of_conflictRest?_eq_some hplace hrest, bind,
    Except.bind, pure, Except.pure]

/-- What a visit that does not fail can do: absorb the frame as it is, or what a conflict leaves of
it for the event taken at its place. -/
theorem visit_cases {next : Walk} (hvisit : walk.visit reference frame = .ok next) :
    ∃ transition, walk.knowledge.log.transition? frame.place = some transition ∧
      ((walk.conflictRest? frame transition = none ∧ next = walk.absorb transition.state frame) ∨
        ∃ rest, walk.conflictRest? frame transition = some rest ∧
          next = (walk.call (.reorder transition.state frame.event reference frame.place)).absorb
            transition.state { frame with event := transition.event, footprint := rest }) := by
  cases hplace : walk.knowledge.log.transition? frame.place with
  | none => simp [visit_of_transition?_eq_none hplace] at hvisit
  | some transition =>
    refine ⟨transition, rfl, ?_⟩
    cases hconflict : walk.conflictRest? frame transition with
    | none =>
      rw [visit_of_conflictRest?_eq_none hplace hconflict, Except.ok.injEq] at hvisit
      exact .inl ⟨rfl, hvisit.symm⟩
    | some rest =>
      rw [visit_of_conflictRest?_eq_some hplace hconflict, Except.ok.injEq] at hvisit
      exact .inr ⟨rest, rfl, hvisit.symm⟩

/-- A visit does not fail where a transition was taken. -/
theorem exists_visit_of_transition?
    (hplace : walk.knowledge.log.transition? frame.place = some transition)
    (reference : List Event) : ∃ next, walk.visit reference frame = .ok next := by
  cases hconflict : walk.conflictRest? frame transition with
  | none => exact ⟨_, visit_of_conflictRest?_eq_none hplace hconflict⟩
  | some rest => exact ⟨_, visit_of_conflictRest?_eq_some hplace hconflict⟩

/-- A walk under way from coherent knowledge: what was learnt so far, and frames at taken places
with known events. -/
structure Learning (walk : Walk) (reference : List Event) (knowledge : Knowledge) : Prop where
  /-- The walk has only learnt. -/
  learns : knowledge.Learns reference walk.knowledge
  /-- The frames to be visited stand at places that were taken. -/
  taken_of_frame : ∀ frame ∈ walk.stack,
    ∃ transition, walk.knowledge.log.taken? frame.place = some transition
  /-- The events that travel are known. -/
  event_of_frame : ∀ frame ∈ walk.stack, frame.event ∈ reference
  /-- The accesses that travel can be carried for their events. -/
  carries_of_frame : ∀ frame ∈ walk.stack, knowledge.Carries frame.event frame.footprint

/-- The frames that absorbing a frame sends on: they carry its news to predecessors. -/
theorem mem_stack_absorb {state : StateId} {other : Frame}
    (h : other ∈ (walk.absorb state frame).stack) :
    other ∈ walk.stack ∨
      other.place ∈ walk.knowledge.predecessors.of state ∧ other.event = frame.event ∧
        other.footprint = (walk.knowledge.summary.absorb state frame.event frame.footprint).1 := by
  simp only [absorb, List.mem_append] at h
  rcases h with honward | hstack
  · split at honward
    · exact absurd honward List.not_mem_nil
    · obtain ⟨place, hplace, rfl⟩ := List.mem_map.mp honward
      exact Or.inr ⟨hplace, rfl, rfl⟩
  · exact Or.inl hstack

/-- Absorbing a frame with a known event goes on learning. -/
private theorem Learning.absorb {knowledge : Knowledge} (h : walk.Learning reference knowledge)
    (hknowledge : knowledge.Coherent reference) (state : StateId) (hevent : frame.event ∈ reference)
    (hcarries : knowledge.Carries frame.event frame.footprint) :
    (walk.absorb state frame).Learning reference knowledge where
  learns := h.learns.absorb state frame.event frame.footprint hevent hcarries
  taken_of_frame other hother := by
    rcases mem_stack_absorb hother with hstack | ⟨hplace, -, -⟩
    · exact h.taken_of_frame other hstack
    · exact (h.learns.coherent hknowledge).taken_of_predecessor _ _ hplace
  event_of_frame other hother := by
    rcases mem_stack_absorb hother with hstack | ⟨-, hsame, -⟩
    · exact h.event_of_frame other hstack
    · exact hsame ▸ hevent
  carries_of_frame other hother := by
    rcases mem_stack_absorb hother with hstack | ⟨-, hsame, hnews⟩
    · exact h.carries_of_frame other hstack
    · rw [hsame, hnews]
      exact hcarries.part fun access haccess => (Summary.mem_absorb_fst.mp haccess).1

/-- A visit goes on learning and does not fail. -/
theorem Learning.visit {knowledge : Knowledge} (h : walk.Learning reference knowledge)
    (hknowledge : knowledge.Coherent reference) {stack : List Frame}
    (hstack : walk.stack = frame :: stack) :
    ∃ next, { walk with stack }.visit reference frame = .ok next ∧
      next.Learning reference knowledge := by
  have hframe : frame ∈ walk.stack := by simp [hstack]
  have hrest (other : Frame) (hother : other ∈ stack) : other ∈ walk.stack := by
    simp [hstack, hother]
  obtain ⟨transition, htaken⟩ := h.taken_of_frame frame hframe
  have hplace := ExecutionLog.transition?_of_taken? htaken
  have hevent := h.event_of_frame frame hframe
  have hcarries := h.carries_of_frame frame hframe
  have hpopped : ({ walk with stack } : Walk).Learning reference knowledge :=
    ⟨h.learns, fun other hother => h.taken_of_frame other (hrest other hother),
      fun other hother => h.event_of_frame other (hrest other hother),
      fun other hother => h.carries_of_frame other (hrest other hother)⟩
  cases hconflict : ({ walk with stack } : Walk).conflictRest? frame transition with
  | none =>
    exact ⟨_, visit_of_conflictRest?_eq_none hplace hconflict,
      hpopped.absorb hknowledge transition.state hevent hcarries⟩
  | some rest =>
    refine ⟨_, visit_of_conflictRest?_eq_some hplace hconflict, ?_⟩
    obtain ⟨hother, recorded, hrecorded, htake⟩ := of_conflictRest?_eq_some hconflict
    simp only [h.learns.log_eq] at htaken hrecorded
    have hcalled : (({ walk with stack } : Walk).call
        (.reorder transition.state frame.event reference frame.place)).Learning reference
          knowledge :=
      ⟨hpopped.learns.call frame.place frame.event htaken hevent hcarries hrecorded hother htake,
        hpopped.taken_of_frame, hpopped.event_of_frame, hpopped.carries_of_frame⟩
    exact hcalled.absorb hknowledge transition.state (hknowledge.event_of_taken _ _ htaken)
      (hcarries.handed htaken hrecorded hother htake)

end Walk

end EventOrder
