import EventOrder.Proofs.Race.Grounded
import EventOrder.Proofs.Race.Spreading

/-!
# Where summarised accesses come from

A walk carries accesses backwards only, from a place to the places that lead there, and a replay
sets out from a place that leads into the replayed state. So whatever is summarised at a state was
recorded downstream of it, and every event that something is summarised for was executed.
-/

namespace EventOrder

namespace Knowledge

variable {knowledge later : Knowledge} {summary : Summary} {reference : List Event}
  {state : StateId} {place : TransitionRef} {event : Event} {footprint : Footprint}

/-- The place is downstream of the state: a transition taken in the state leads to it. -/
def Downstream (knowledge : Knowledge) (state : StateId) (place : TransitionRef) : Prop :=
  ∃ earlier transition, knowledge.LeadsTo place earlier ∧
    knowledge.log.taken? earlier = some transition ∧ transition.state = state

/-- The access was recorded downstream of the state. -/
def RecordedBelow (knowledge : Knowledge) (state : StateId) (access : Access) : Prop :=
  ∃ place recorded, knowledge.Downstream state place ∧
    knowledge.log.footprint? place = some recorded ∧ access ∈ recorded

/-- The access was recorded at the place or where the place leads to. -/
def RecordedPast (knowledge : Knowledge) (place : TransitionRef) (access : Access) : Prop :=
  ∃ target recorded, knowledge.LeadsTo target place ∧
    knowledge.log.footprint? target = some recorded ∧ access ∈ recorded

/-- The event was executed: accesses were recorded at a place where it was taken. -/
def Executed (knowledge : Knowledge) (event : Event) : Prop :=
  ∃ place transition recorded, knowledge.log.taken? place = some transition ∧
    transition.event = event ∧ knowledge.log.footprint? place = some recorded

/-- The summary holds nothing but accesses recorded downstream, for events that were executed. -/
def Accounts (knowledge : Knowledge) (summary : Summary) : Prop :=
  ∀ state event footprint, summary.get? state event = some footprint →
    knowledge.Executed event ∧ ∀ access ∈ footprint, knowledge.RecordedBelow state access

/-- Whatever was taken, recorded or found to lead into a state still is. -/
structure Keeps (knowledge later : Knowledge) : Prop where
  /-- No transition is taken back. -/
  taken : ∀ place transition, knowledge.log.taken? place = some transition →
    later.log.taken? place = some transition
  /-- No recorded footprint is changed. -/
  footprint : ∀ place recorded, knowledge.log.footprint? place = some recorded →
    later.log.footprint? place = some recorded
  /-- No predecessor is dropped. -/
  predecessor : ∀ state, ∀ place ∈ knowledge.predecessors.of state,
    place ∈ later.predecessors.of state

/-- Whatever is kept twice is kept. -/
theorem Keeps.trans {last : Knowledge} (hfirst : knowledge.Keeps later)
    (hthen : later.Keeps last) : knowledge.Keeps last where
  taken place transition htaken :=
    hthen.taken place transition (hfirst.taken place transition htaken)
  footprint place recorded hrecorded :=
    hthen.footprint place recorded (hfirst.footprint place recorded hrecorded)
  predecessor state place hplace :=
    hthen.predecessor state place (hfirst.predecessor state place hplace)

/-- Nothing is taken back while the executions and the predecessors stay as they are. -/
theorem Keeps.of_eq (hlog : later.log = knowledge.log)
    (hpredecessors : later.predecessors = knowledge.predecessors) : knowledge.Keeps later where
  taken place transition htaken := by rwa [hlog]
  footprint place recorded hrecorded := by rwa [hlog]
  predecessor state place hplace := by rwa [hpredecessors]

/-- Walks take nothing back. -/
theorem Calls.keeps (h : knowledge.Calls later) : knowledge.Keeps later :=
  .of_eq h.log_eq h.predecessors_eq

/-- A place still leads where it led. -/
theorem LeadsTo.mono {target : TransitionRef} (h : knowledge.LeadsTo target place)
    (hkept : knowledge.Keeps later) : later.LeadsTo target place := by
  induction h with
  | refl => exact .refl
  | step _ htaken hplace ih =>
    exact ih.step (hkept.taken _ _ htaken) (hkept.predecessor _ _ hplace)

/-- What accounts for a summary still does when nothing is taken back. -/
theorem Accounts.mono (h : knowledge.Accounts summary) (hkept : knowledge.Keeps later) :
    later.Accounts summary := by
  intro state event footprint hentry
  obtain ⟨⟨place, transition, recorded, htaken, hevent, hrecorded⟩, haccesses⟩ :=
    h state event footprint hentry
  refine ⟨⟨place, transition, recorded, hkept.taken _ _ htaken, hevent,
    hkept.footprint _ _ hrecorded⟩, fun access haccess => ?_⟩
  obtain ⟨source, held, ⟨earlier, first, hleads, hfirst, hstate⟩, hheld, hmem⟩ :=
    haccesses access haccess
  exact ⟨source, held, ⟨earlier, first, hleads.mono hkept, hkept.taken _ _ hfirst, hstate⟩,
    hkept.footprint _ _ hheld, hmem⟩

/-- An access recorded past a place was recorded downstream of the place's state. -/
theorem RecordedPast.below {access : Access} {transition : Transition}
    (h : knowledge.RecordedPast place access)
    (htaken : knowledge.log.taken? place = some transition) :
    knowledge.RecordedBelow transition.state access := by
  obtain ⟨target, recorded, hleads, hrecorded, haccess⟩ := h
  exact ⟨target, recorded, ⟨place, transition, hleads, htaken, rfl⟩, hrecorded, haccess⟩

/-- An access recorded downstream of a state was recorded past every place that leads into it. -/
theorem RecordedBelow.past {access : Access} (h : knowledge.RecordedBelow state access)
    (hplace : place ∈ knowledge.predecessors.of state) : knowledge.RecordedPast place access := by
  obtain ⟨target, recorded, ⟨earlier, transition, hleads, htaken, rfl⟩, hrecorded, haccess⟩ := h
  exact ⟨target, recorded, hleads.step htaken hplace, hrecorded, haccess⟩

/-- Absorbing accesses recorded downstream of a state leaves nothing unaccounted for. -/
theorem Accounts.absorb (h : knowledge.Accounts summary) (hevent : knowledge.Executed event)
    (hfootprint : ∀ access ∈ footprint, knowledge.RecordedBelow state access) :
    knowledge.Accounts (summary.absorb state event footprint).2 := by
  intro other another merged hentry
  rw [Summary.get?_absorb] at hentry
  split at hentry
  · rename_i hsame
    obtain ⟨-, rfl, rfl⟩ := hsame
    refine ⟨hevent, fun access haccess => ?_⟩
    rw [← Option.some.inj hentry] at haccess
    rcases Footprint.mem_merge.mp haccess with hnew | ⟨hold, -⟩
    · exact hfootprint access hnew
    · cases hbefore : summary.get? state event with
      | none => simp [Summary.footprintAt, hbefore] at hold
      | some before =>
        rw [Summary.footprintAt, hbefore] at hold
        exact (h state event before hbefore).2 access hold
  · exact h other another merged hentry

end Knowledge

/-- The frame carries accesses recorded past its place, for an event that was executed. -/
def Frame.Sourced (frame : Frame) (knowledge : Knowledge) : Prop :=
  knowledge.Executed frame.event ∧
    ∀ access ∈ frame.footprint, knowledge.RecordedPast frame.place access

namespace Walk

variable {walk : Walk} {frame : Frame} {knowledge : Knowledge} {reference : List Event}
  {transition : Transition}

/-- A walk that carries and summarises nothing but what was recorded. -/
structure Sourcing (walk : Walk) (knowledge : Knowledge) : Prop where
  /-- What is summarised was recorded downstream. -/
  accounts : knowledge.Accounts walk.knowledge.summary
  /-- What is carried was recorded past the frames' places. -/
  frames : ∀ frame ∈ walk.stack, frame.Sourced knowledge

/-- Absorbing a frame at the state of its place sends its news on to places before that. -/
private theorem Sourcing.absorb (h : walk.Sourcing knowledge) (hframe : frame.Sourced knowledge)
    (hpredecessors : walk.knowledge.predecessors = knowledge.predecessors)
    (htaken : knowledge.log.taken? frame.place = some transition) :
    (walk.absorb transition.state frame).Sourcing knowledge := by
  obtain ⟨hevent, haccesses⟩ := hframe
  refine ⟨h.accounts.absorb hevent fun access haccess => (haccesses access haccess).below htaken,
    fun other hother => ?_⟩
  rcases mem_stack_absorb hother with hstack | ⟨hplace, hsame, hnews⟩
  · exact h.frames other hstack
  · refine ⟨hsame ▸ hevent, fun access haccess => ?_⟩
    rw [hnews] at haccess
    have hcarried := haccesses access (Summary.mem_absorb_fst.mp haccess).1
    exact (hcarried.below htaken).past (hpredecessors ▸ hplace)

/-- A visit carries on what was recorded. With a conflict the event of the place takes over, which
was executed there. -/
theorem Sourcing.visit (h : walk.Sourcing knowledge) (hcalls : knowledge.Calls walk.knowledge)
    {stack : List Frame} (hstack : walk.stack = frame :: stack)
    (htaken : knowledge.log.taken? frame.place = some transition) {next : Walk}
    (hvisit : { walk with stack }.visit reference frame = .ok next) : next.Sourcing knowledge := by
  have hplace : ({ walk with stack } : Walk).knowledge.log.transition? frame.place =
      some transition := by
    rw [hcalls.log_eq]
    exact ExecutionLog.transition?_of_taken? htaken
  have hframe : frame.Sourced knowledge := h.frames frame (by simp [hstack])
  have hpopped : ({ walk with stack } : Walk).Sourcing knowledge :=
    ⟨h.accounts, fun other hother => h.frames other (by simp [hstack, hother])⟩
  cases hconflict : ({ walk with stack } : Walk).conflictRest? frame transition with
  | none =>
    rw [visit_of_conflictRest?_eq_none hplace hconflict, Except.ok.injEq] at hvisit
    rw [← hvisit]
    exact hpopped.absorb hframe hcalls.predecessors_eq htaken
  | some rest =>
    rw [visit_of_conflictRest?_eq_some hplace hconflict, Except.ok.injEq] at hvisit
    obtain ⟨-, recorded, hrecorded, htake⟩ := of_conflictRest?_eq_some hconflict
    simp only [hcalls.log_eq] at hrecorded
    have hcalled : (({ walk with stack } : Walk).call
        (.reorder transition.state frame.event reference frame.place)).Sourcing knowledge :=
      ⟨hpopped.accounts, hpopped.frames⟩
    rw [← hvisit]
    refine hcalled.absorb ⟨⟨frame.place, transition, recorded, htaken, rfl, hrecorded⟩,
      fun access haccess => ?_⟩ hcalls.predecessors_eq htaken
    exact hframe.2 access (Footprint.mem_of_takeConflict?_eq_some htake haccess)

end Walk

namespace Knowledge

variable {knowledge : Knowledge} {place : TransitionRef} {transition : Transition}

/-- A walk summarises only what was recorded, if that is what its first frame carries. -/
theorem Grounded.propagate_accounts (h : knowledge.Grounded) (root : Frame)
    (hplace : knowledge.log.taken? root.place = some transition) (hroot : root.Sourced knowledge)
    (haccounts : knowledge.Accounts knowledge.summary) (reference : List Event) :
    ∃ later created, knowledge.propagate root reference = (later, .ok created) ∧
      knowledge.Calls later ∧ later.Accounts later.summary := by
  have hstart : (Walk.start knowledge root).Calling knowledge ∧
      (Walk.start knowledge root).Sourcing knowledge := by
    refine ⟨⟨.refl knowledge, fun frame hframe => ?_⟩, haccounts, fun frame hframe => ?_⟩
    · rw [List.mem_singleton.mp hframe]
      exact ⟨transition, hplace⟩
    · rw [List.mem_singleton.mp hframe]
      exact hroot
  obtain ⟨last, hpropagate, -, hcalling, hsourcing⟩ := propagate_induction
    (motive := fun walk => walk.Calling knowledge ∧ walk.Sourcing knowledge) hstart
    fun walk frame stack hstack hwalk => by
      obtain ⟨hcalling, hsourcing⟩ := hwalk
      obtain ⟨taken, htaken⟩ := hcalling.taken_of_frame frame (by simp [hstack])
      obtain ⟨next, hvisit, hnext⟩ := hcalling.visit h reference hstack
      exact ⟨next, hvisit, hnext, hsourcing.visit hcalling.calls hstack htaken hvisit⟩
  exact ⟨_, _, hpropagate, hcalling.calls, hsourcing.accounts.mono hcalling.calls.keeps⟩

/-- Completing an event summarises only what was recorded. -/
theorem Grounded.eventCompleted_accounts (h : knowledge.Grounded)
    (hplace : knowledge.log.taken? place = some transition)
    (haccounts : knowledge.Accounts knowledge.summary) (reference : List Event) :
    ∃ later created, knowledge.eventCompleted place reference = (later, .ok created) ∧
      knowledge.Calls later ∧ later.Accounts later.summary := by
  unfold eventCompleted
  cases hfootprint : knowledge.log.footprint? place with
  | none => exact ⟨knowledge, 0, rfl, .refl knowledge, haccounts⟩
  | some footprint =>
    simp only [transitionAt, ExecutionLog.transition?_of_taken? hplace]
    refine h.propagate_accounts _ hplace ⟨?_, fun access haccess => ?_⟩ haccounts reference
    · exact ⟨place, transition, footprint, hplace, rfl, hfootprint⟩
    · exact ⟨place, footprint, .refl, hfootprint, haccess⟩

/-- Meeting a state again after a place that leads into it summarises only what was recorded. -/
theorem Grounded.stateRevisited_accounts (h : knowledge.Grounded) {state : StateId}
    (hleads : place ∈ knowledge.predecessors.of state)
    (haccounts : knowledge.Accounts knowledge.summary) (reference : List Event) :
    ∃ later created, knowledge.stateRevisited state place reference = (later, .ok created) ∧
      knowledge.Calls later ∧ later.Accounts later.summary := by
  refine replay_induction (motive := fun later => knowledge.Calls later ∧
    later.Accounts later.summary) (fun between event footprint hbetween hentry => ?_) _ 0
    ⟨.refl knowledge, haccounts⟩
  obtain ⟨hcalls, hkept⟩ := hbetween
  have hplace : place ∈ between.predecessors.of state := hcalls.predecessors_eq ▸ hleads
  obtain ⟨transition, htaken⟩ := (hcalls.grounded h) state place hplace
  obtain ⟨hevent, hfootprint⟩ := hkept state event footprint hentry
  obtain ⟨later, created, hpropagate, hthen, hlater⟩ := (hcalls.grounded h).propagate_accounts
    ⟨place, event, footprint, true⟩ htaken
    ⟨hevent, fun access haccess => (hfootprint access haccess).past hplace⟩ hkept reference
  exact ⟨later, created, hpropagate, hcalls.trans hthen, hlater⟩

end Knowledge

end EventOrder
