import EventOrder.Proofs.Race.Grounded
import EventOrder.Proofs.Race.Journeys

/-!
# Races and the reorderings that answer them

There is a race where an access that is summarised for an event at a state conflicts with what was
recorded where another event led into that state. The race is answered once a point was admitted
that tries the summarised event first. A walk answers every race that it makes, except where it
strands an access; this file says so by following the frames that still have to be visited.
-/

namespace EventOrder

/-- A race of an event that follows a place with the event taken there. -/
structure Knowledge.Race (knowledge : Knowledge) (state : StateId) (event : Event)
    (access : Access) (place : TransitionRef) (earlier : Transition) : Prop where
  /-- The place leads into the state. -/
  leads : place ∈ knowledge.predecessors.of state
  /-- A transition was taken there. -/
  taken : knowledge.log.taken? place = some earlier
  /-- It was taken for another event. -/
  other : earlier.event ≠ event
  /-- The access is summarised for the event at the state. -/
  summarised : access ∈ knowledge.summary.footprintAt state event
  /-- It conflicts with what was recorded at the place. -/
  conflicts : ∃ recorded, knowledge.log.footprint? place = some recorded ∧
    access.conflictsWith recorded = true

/-- Every race is answered, except for those still pending. What is summarised is summarised at
known states only, and places lead from known states only. -/
structure Knowledge.Answers (knowledge : Knowledge) (known : StateId → Prop)
    (pending : StateId → Event → Access → TransitionRef → Prop) : Prop where
  /-- A race is answered by a point that tries the later event first. -/
  answered : ∀ state event access place earlier,
    knowledge.Race state event access place earlier →
      knowledge.backlog.isConstructed earlier.state event = true ∨
        pending state event access place
  /-- States with a summary are known. -/
  known_of_summary : ∀ state, knowledge.summary.containsState state = true → known state
  /-- States from which a place leads on are known. -/
  known_of_lead : ∀ state, ∀ place ∈ knowledge.predecessors.of state, ∀ transition,
    knowledge.log.taken? place = some transition → known transition.state

/-- The later knowledge differs only in what is recorded at one place, in the places that lead into
states and in which points still wait. -/
structure Knowledge.AgreesOutside (knowledge later : Knowledge) (place : TransitionRef) : Prop where
  /-- The same is summarised. -/
  summary_eq : later.summary = knowledge.summary
  /-- The same points were admitted. -/
  constructed_eq : later.backlog.constructed = knowledge.backlog.constructed
  /-- Elsewhere the same transitions were taken. -/
  taken?_eq : ∀ other, other ≠ place → later.log.taken? other = knowledge.log.taken? other
  /-- Elsewhere the same accesses are recorded. -/
  footprint?_eq : ∀ other, other ≠ place →
    later.log.footprint? other = knowledge.log.footprint? other

/-- Races are answered as before when all places that lead on now did so before, or their races may
be pending. -/
theorem Knowledge.Answers.of_agreesOutside {knowledge later : Knowledge} {changed : TransitionRef}
    (h : knowledge.Answers known pending) (hagrees : knowledge.AgreesOutside later changed)
    {knownLater : StateId → Prop} (hknown : ∀ state, known state → knownLater state)
    (hpending : ∀ state event access place, pending state event access place →
      others state event access place)
    (hlead : ∀ state, ∀ place ∈ later.predecessors.of state,
      (place ∈ knowledge.predecessors.of state ∧ place ≠ changed) ∨
        (∀ event access, others state event access place) ∧
          ∀ transition, later.log.taken? place = some transition → knownLater transition.state) :
    later.Answers knownLater others where
  answered state event access place earlier hrace := by
    rcases hlead state place hrace.leads with ⟨hleads, helse⟩ | ⟨hopen, -⟩
    · have hbefore : knowledge.Race state event access place earlier :=
        ⟨hleads, hagrees.taken?_eq place helse ▸ hrace.taken, hrace.other,
          hagrees.summary_eq ▸ hrace.summarised,
          hagrees.footprint?_eq place helse ▸ hrace.conflicts⟩
      rw [Backlog.isConstructed, hagrees.constructed_eq]
      exact (h.answered state event access place earlier hbefore).imp_right
        (hpending state event access place)
    · exact Or.inr (hopen event access)
  known_of_summary state hstate :=
    hknown state (h.known_of_summary state (hagrees.summary_eq ▸ hstate))
  known_of_lead state place hplace transition htaken := by
    rcases hlead state place hplace with ⟨hleads, helse⟩ | ⟨-, hstate⟩
    · rw [hagrees.taken?_eq place helse] at htaken
      exact hknown _ (h.known_of_lead state place hleads transition htaken)
    · exact hstate transition htaken

/-- A frame on its way to a place will answer the races there of the accesses it carries. -/
def Frame.Serves (frame : Frame) (event : Event) (access : Access) (place : TransitionRef) : Prop :=
  frame.place = place ∧ frame.event = event ∧ frame.check = true ∧ access ∈ frame.footprint

variable {known : StateId → Prop} {pending others : StateId → Event → Access → TransitionRef → Prop}

/-- Fewer races may be pending when those left out are none. -/
theorem Knowledge.Answers.refine {knowledge : Knowledge} (h : knowledge.Answers known pending)
    (hpending : ∀ state event access place earlier,
      knowledge.Race state event access place earlier → pending state event access place →
        others state event access place) : knowledge.Answers known others where
  answered state event access place earlier hrace :=
    (h.answered state event access place earlier hrace).imp_right
      (hpending state event access place earlier hrace)
  known_of_summary := h.known_of_summary
  known_of_lead := h.known_of_lead

namespace Walk

variable {walk : Walk} {frame : Frame} {transition : Transition} {reference : List Event}

/-- A walk answers every race once it has visited its frames, except for those still pending. -/
structure Answering (walk : Walk) (known : StateId → Prop)
    (pending : StateId → Event → Access → TransitionRef → Prop) : Prop where
  /-- The races that its frames will answer may be pending as well. -/
  answers : walk.knowledge.Answers known fun state event access place =>
    pending state event access place ∨ ∃ frame ∈ walk.stack, frame.Serves event access place
  /-- The frames stand at places of known states. -/
  known_of_frame : ∀ frame ∈ walk.stack, ∀ transition,
    walk.knowledge.log.taken? frame.place = some transition → known transition.state

/-- Absorbing a frame makes races only where its news are sent on, or where they are stranded. -/
private theorem Answering.absorb (h : walk.Answering known pending) {state : StateId}
    (hstate : known state)
    (hstranded : walk.visited.contains frame.place = true →
      ∀ place ∈ walk.knowledge.predecessors.of state, ∀ access,
        access ∈ (walk.knowledge.summary.absorb state frame.event frame.footprint).1 →
          pending state frame.event access place) :
    (walk.absorb state frame).Answering known pending := by
  refine ⟨⟨?_, ?_, h.answers.known_of_lead⟩, ?_⟩
  · intro other event access place earlier hrace
    by_cases hold : access ∈ walk.knowledge.summary.footprintAt other event
    · rcases h.answers.answered other event access place earlier
        ⟨hrace.leads, hrace.taken, hrace.other, hold, hrace.conflicts⟩ with
        hanswered | hpending | ⟨waits, hwaits, hserves⟩
      · exact Or.inl hanswered
      · exact Or.inr (Or.inl hpending)
      · exact Or.inr (Or.inr ⟨waits, List.mem_append_right _ hwaits, hserves⟩)
    · obtain ⟨rfl, rfl, hcarried⟩ :=
        (Summary.mem_footprintAt_of_absorb hrace.summarised).resolve_left hold
      have hnews := Summary.mem_absorb_fst.mpr ⟨hcarried, hold⟩
      cases hvisited : walk.visited.contains frame.place with
      | true => exact Or.inr (Or.inl (hstranded hvisited place hrace.leads access hnews))
      | false =>
        have hsome : (walk.knowledge.summary.absorb state frame.event frame.footprint).1.isEmpty =
            false := by
          rw [← Bool.not_eq_true, Footprint.isEmpty_iff]
          exact fun hnone => hnone access hnews
        refine Or.inr (Or.inr ⟨⟨place, frame.event, _, true⟩, ?_, rfl, rfl, rfl, hnews⟩)
        simp only [Walk.absorb, hvisited, hsome, Bool.or_self, Bool.false_eq_true, if_false]
        exact List.mem_append_left _ (List.mem_map_of_mem hrace.leads)
  · intro other hother
    rcases Summary.containsState_of_absorb hother with hold | rfl
    · exact h.answers.known_of_summary other hold
    · exact hstate
  · intro other hother transition htaken
    rcases mem_stack_absorb hother with hstack | ⟨hplace, -, -⟩
    · exact h.known_of_frame other hstack transition htaken
    · exact h.answers.known_of_lead state other.place hplace transition htaken

/-- A race that waits for a frame of the stack waits for the first one or for one of the others. -/
private theorem serves_of_stack {stack : List Frame} (hstack : walk.stack = frame :: stack)
    {event : Event} {access : Access} {place : TransitionRef}
    (hwaits : ∃ waits ∈ walk.stack, waits.Serves event access place) :
    frame.Serves event access place ∨ ∃ waits ∈ stack, waits.Serves event access place := by
  obtain ⟨waits, hwaits, hserves⟩ := hwaits
  rcases List.mem_cons.mp (hstack ▸ hwaits) with rfl | hlater
  · exact Or.inl hserves
  · exact Or.inr ⟨waits, hlater, hserves⟩

/-- No race waits for a frame that meets no conflict. -/
private theorem Answering.pop (h : walk.Answering known pending) {stack : List Frame}
    (hstack : walk.stack = frame :: stack)
    (htaken : walk.knowledge.log.taken? frame.place = some transition)
    (hconflict : ({ walk with stack } : Walk).conflictRest? frame transition = none) :
    ({ walk with stack } : Walk).Answering known pending := by
  refine ⟨h.answers.refine ?_, fun other hother =>
    h.known_of_frame other (hstack ▸ List.mem_cons_of_mem _ hother)⟩
  rintro state event access place earlier hrace (hpending | hwaits)
  · exact Or.inl hpending
  · rcases serves_of_stack hstack hwaits with ⟨rfl, rfl, hcheck, hcarried⟩ | hlater
    · -- The frame would have met the conflict.
      obtain ⟨recorded, hrecorded, haccess⟩ := hrace.conflicts
      obtain rfl : earlier = transition := Option.some.inj (hrace.taken.symm.trans htaken)
      have hnone : frame.footprint.takeConflict? recorded = none := by
        simpa [conflictRest?, hcheck, hrace.other, hrecorded] using hconflict
      rw [Footprint.takeConflict?_eq_none_iff.mp hnone access hcarried] at haccess
      exact absurd haccess (by simp)
    · exact Or.inr hlater

/-- The point that a conflict calls for answers the races that waited for its frame. -/
private theorem Answering.popCall (h : walk.Answering known pending) {stack : List Frame}
    (hstack : walk.stack = frame :: stack)
    (htaken : walk.knowledge.log.taken? frame.place = some transition) :
    (({ walk with stack } : Walk).call
      (.reorder transition.state frame.event reference frame.place)).Answering known pending := by
  have hfirst : (BacktrackPoint.reorder transition.state frame.event reference
      frame.place).first? = some frame.event := rfl
  refine ⟨⟨?_, h.answers.known_of_summary, h.answers.known_of_lead⟩, fun other hother =>
    h.known_of_frame other (hstack ▸ List.mem_cons_of_mem _ hother)⟩
  intro state event access place earlier hrace
  rcases h.answers.answered state event access place earlier
    ⟨hrace.leads, hrace.taken, hrace.other, hrace.summarised, hrace.conflicts⟩ with
    hanswered | hpending | hwaits
  · exact Or.inl ((Backlog.isConstructed_add_iff hfirst).mpr (Or.inl hanswered))
  · exact Or.inr (Or.inl hpending)
  · rcases serves_of_stack hstack hwaits with ⟨rfl, rfl, -, -⟩ | hlater
    · obtain rfl : earlier = transition := Option.some.inj (hrace.taken.symm.trans htaken)
      exact Or.inl ((Backlog.isConstructed_add_iff hfirst).mpr (Or.inr ⟨rfl, rfl⟩))
    · exact Or.inr (Or.inr hlater)

/-- A visit answers the races of its frame, and strands what it does not send on. -/
theorem Answering.visit (h : walk.Answering known pending) {stack : List Frame}
    (hstack : walk.stack = frame :: stack)
    (htaken : walk.knowledge.log.taken? frame.place = some transition)
    (hstranded : ∀ lost ∈ ({ walk with stack } : Walk).strandedBy reference frame,
      pending lost.state lost.event lost.access lost.place)
    {next : Walk} (hvisit : { walk with stack }.visit reference frame = .ok next) :
    next.Answering known pending := by
  have hplace : ({ walk with stack } : Walk).knowledge.log.transition? frame.place =
      some transition := ExecutionLog.transition?_of_taken? htaken
  have hstate : known transition.state :=
    h.known_of_frame frame (by simp [hstack]) transition htaken
  cases hconflict : ({ walk with stack } : Walk).conflictRest? frame transition with
  | none =>
    rw [visit_of_conflictRest?_eq_none hplace hconflict, Except.ok.injEq] at hvisit
    rw [← hvisit]
    refine (h.pop hstack htaken hconflict).absorb hstate
      fun hvisited place hleads access hnews => ?_
    exact hstranded _
      (mem_strandedBy_of_conflictRest?_eq_none hplace hconflict hvisited hleads hnews)
  | some rest =>
    rw [visit_of_conflictRest?_eq_some hplace hconflict, Except.ok.injEq] at hvisit
    rw [← hvisit]
    refine (h.popCall hstack htaken).absorb hstate fun hvisited place hleads access hnews => ?_
    exact hstranded _
      (mem_strandedBy_of_conflictRest?_eq_some hplace hconflict hvisited hleads hnews)

end Walk

/-- The races that any of the walks strands are pending. -/
def Journey.Covered (journeys : List Journey)
    (pending : StateId → Event → Access → TransitionRef → Prop) : Prop :=
  ∀ journey ∈ journeys, ∀ lost ∈ journey.stranded,
    pending lost.state lost.event lost.access lost.place

/-- Some of the walks are covered when all are. -/
theorem Journey.Covered.mono {some all : List Journey} (h : Covered all pending)
    (hpart : ∀ journey ∈ some, journey ∈ all) : Covered some pending :=
  fun journey hjourney => h journey (hpart journey hjourney)

namespace Knowledge

variable {knowledge : Knowledge} {state : StateId} {place : TransitionRef}
  {transition : Transition} {reference : List Event}

/-- A walk answers the races that its first frame serves; only what it strands is left pending. -/
theorem Grounded.propagate_answers (h : knowledge.Grounded) (root : Frame)
    (hplace : knowledge.log.taken? root.place = some transition) (hknown : known transition.state)
    (hanswers : knowledge.Answers known fun state event access place =>
      pending state event access place ∨ root.Serves event access place)
    (hcovered : Journey.Covered [⟨knowledge, root, reference⟩] pending) :
    ∃ later created, knowledge.propagate root reference = (later, .ok created) ∧
      knowledge.Calls later ∧ later.Answers known pending := by
  let kept (steps : Nat) (walk : Walk) : Prop :=
    walk.Calling knowledge ∧ walk.Answering known pending ∧
      ∀ lost ∈ walk.stranded reference steps,
        pending lost.state lost.event lost.access lost.place
  have hstart : kept knowledge.walkBound (Walk.start knowledge root) := by
    refine ⟨⟨.refl knowledge, fun frame hframe => ?_⟩, ⟨?_, fun frame hframe other htaken => ?_⟩,
      hcovered _ List.mem_cons_self⟩
    · rw [List.mem_singleton.mp hframe]
      exact ⟨transition, hplace⟩
    · refine hanswers.refine fun state event access place earlier _ hpending => ?_
      exact hpending.imp_right fun hserves => ⟨root, List.mem_cons_self, hserves⟩
    · rw [List.mem_singleton.mp hframe] at htaken
      rwa [← Option.some.inj (hplace.symm.trans htaken)]
  obtain ⟨last, unused, hpropagate, hempty, hcalling, hanswering, -⟩ :=
    propagate_induction_of_steps hstart fun steps walk frame stack hstack hwalk => by
      obtain ⟨hcalling, hanswering, hstranded⟩ := hwalk
      obtain ⟨taken, htaken⟩ := hcalling.taken_of_frame frame (by simp [hstack])
      rw [← hcalling.calls.log_eq] at htaken
      obtain ⟨next, hvisit, hnext⟩ := hcalling.visit h reference hstack
      simp only [Walk.stranded, hstack, hvisit, List.mem_append] at hstranded
      refine ⟨next, hvisit, hnext, ?_, fun lost hlost => hstranded lost (Or.inr hlost)⟩
      exact hanswering.visit hstack htaken (fun lost hlost => hstranded lost (Or.inl hlost)) hvisit
  refine ⟨_, _, hpropagate, hcalling.calls, hanswering.answers.refine ?_⟩
  rintro state event access place earlier - (hpending | ⟨frame, hframe, -⟩)
  · exact hpending
  · rw [hempty] at hframe
    exact absurd hframe List.not_mem_nil

/-- Completing an event leaves nothing pending but what was, and what its walk strands. -/
theorem Grounded.eventCompleted_answers (h : knowledge.Grounded)
    (hplace : knowledge.log.taken? place = some transition) (hknown : known transition.state)
    (hanswers : knowledge.Answers known pending)
    (hcovered : Journey.Covered (knowledge.completion place reference) pending) :
    ∃ later created, knowledge.eventCompleted place reference = (later, .ok created) ∧
      knowledge.Calls later ∧ later.Answers known pending := by
  unfold eventCompleted
  cases hfootprint : knowledge.log.footprint? place with
  | none => exact ⟨knowledge, 0, rfl, .refl knowledge, hanswers⟩
  | some footprint =>
    simp only [completion, transitionAt, ExecutionLog.transition?_of_taken? hplace, hfootprint]
      at hcovered ⊢
    refine h.propagate_answers _ hplace hknown (hanswers.refine ?_) hcovered
    exact fun _ _ _ _ _ _ hpending => Or.inl hpending

/-- Replaying events of a state against a place answers the races there of these events. -/
private theorem Grounded.replay_answers (h : knowledge.Grounded)
    (hplace : knowledge.log.taken? place = some transition) (hknown : known transition.state)
    (events : List Event) (created : Nat)
    (hanswers : knowledge.Answers known fun other event access another =>
      pending other event access another ∨ other = state ∧ another = place ∧ event ∈ events)
    (hcovered : Journey.Covered (replays state place reference events knowledge) pending) :
    ∃ later total, replay state place reference events knowledge created = (later, .ok total) ∧
      knowledge.Calls later ∧ later.Answers known pending := by
  induction events generalizing knowledge created with
  | nil => exact ⟨knowledge, created, rfl, .refl knowledge, hanswers.refine (by simp)⟩
  | cons event events ih =>
    unfold replay
    unfold replays at hcovered
    cases hentry : knowledge.summary.get? state event with
    | none =>
      simp only [hentry] at hcovered
      refine ih h hplace created (hanswers.refine ?_) hcovered
      rintro other another access raced earlier hrace (hpending | ⟨rfl, hraced, hevent⟩)
      · exact Or.inl hpending
      · -- Nothing is summarised for the event, so it takes part in no race.
        rcases List.mem_cons.mp hevent with rfl | hlater
        · exact absurd hrace.summarised (by simp [Summary.footprintAt, hentry])
        · exact Or.inr ⟨rfl, hraced, hlater⟩
    | some footprint =>
      simp only [hentry] at hcovered
      have hfirst : knowledge.Answers known fun other another access raced =>
          (pending other another access raced ∨
            other = state ∧ raced = place ∧ another ∈ events) ∨
              Frame.Serves ⟨place, event, footprint, true⟩ another access raced := by
        refine hanswers.refine ?_
        rintro other another access raced earlier hrace (hpending | ⟨rfl, rfl, hevent⟩)
        · exact Or.inl (Or.inl hpending)
        · rcases List.mem_cons.mp hevent with rfl | hlater
          · refine Or.inr ⟨rfl, rfl, rfl, ?_⟩
            have hsummarised := hrace.summarised
            rwa [Summary.footprintAt, hentry] at hsummarised
          · exact Or.inl (Or.inr ⟨rfl, rfl, hlater⟩)
      obtain ⟨between, more, hpropagate, hcalls, hbetween⟩ := h.propagate_answers _ hplace hknown
        hfirst fun journey hjourney lost hlost => by
          rw [List.mem_singleton.mp hjourney] at hlost
          exact Or.inl (hcovered _ List.mem_cons_self lost hlost)
      simp only [hpropagate] at hcovered ⊢
      obtain ⟨later, total, hreplay, hthen, hlater⟩ := ih (hcalls.grounded h)
        (by rw [hcalls.log_eq]; exact hplace) (created + more) hbetween
        (hcovered.mono fun journey hjourney => List.mem_cons_of_mem _ hjourney)
      exact ⟨later, total, hreplay, hcalls.trans hthen, hlater⟩

/-- Meeting a state again after a place answers all races there of events that follow the place in
this state. -/
theorem Grounded.stateRevisited_answers (h : knowledge.Grounded)
    (hplace : knowledge.log.taken? place = some transition) (hknown : known transition.state)
    (hanswers : knowledge.Answers known fun other event access another =>
      pending other event access another ∨ other = state ∧ another = place)
    (hcovered : Journey.Covered (knowledge.revisits state place reference) pending) :
    ∃ later created, knowledge.stateRevisited state place reference = (later, .ok created) ∧
      knowledge.Calls later ∧ later.Answers known pending := by
  refine h.replay_answers hplace hknown _ 0 (hanswers.refine ?_) hcovered
  rintro other event access another earlier hrace (hpending | ⟨rfl, rfl⟩)
  · exact Or.inl hpending
  · refine Or.inr ⟨rfl, rfl, Summary.mem_eventsAt.mpr ?_⟩
    cases hentry : knowledge.summary.get? other event with
    | none => exact absurd hrace.summarised (by simp [Summary.footprintAt, hentry])
    | some footprint => rfl

end Knowledge

end EventOrder
