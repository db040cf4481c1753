import EventOrder.Proofs.Race.Delivery

/-!
# No access is displaced

A footprint keeps one owner for each field, so merging may displace an access by one to the field of
another owner. When each field has one owner only, nothing is ever displaced: learning keeps
whatever is summarised, and completing an event summarises all that was recorded of it.
-/

namespace EventOrder

namespace Knowledge

variable {allowed : Access → Prop} {knowledge later : Knowledge} {reference : List Event}
  {state : StateId} {event : Event} {access : Access}

/-- Only these accesses were recorded and summarised. -/
structure Among (knowledge : Knowledge) (allowed : Access → Prop) : Prop where
  /-- Only they were recorded. -/
  recorded : ∀ place footprint, knowledge.log.footprint? place = some footprint →
    ∀ access ∈ footprint, allowed access
  /-- Only they are summarised. -/
  summarised : ∀ state event footprint, knowledge.summary.get? state event = some footprint →
    ∀ access ∈ footprint, allowed access

/-- So a walk carries only these. -/
theorem Among.of_carries (h : knowledge.Among allowed) {footprint : Footprint}
    (hcarries : knowledge.Carries event footprint) : ∀ access ∈ footprint, allowed access := by
  induction hcarries with
  | recorded _ hfootprint => exact h.recorded _ _ hfootprint
  | summarised hentry => exact h.summarised _ _ _ hentry
  | part _ hpart ih => exact fun access haccess => ih access (hpart access haccess)
  | merge _ _ ih hmore =>
    intro access haccess
    rcases Footprint.mem_merge.mp haccess with hnew | ⟨hold, -⟩
    · exact hmore access hnew
    · exact ih access hold
  | handed _ _ _ _ hconflict ih =>
    intro access haccess
    exact ih access (Footprint.mem_of_takeConflict?_eq_some hconflict haccess)

/-- And only these are learnt. -/
theorem Among.of_learns (h : knowledge.Among allowed) (hlearns : knowledge.Learns reference later) :
    later.Among allowed where
  recorded place footprint hfootprint := by
    rw [hlearns.log_eq] at hfootprint
    exact h.recorded place footprint hfootprint
  summarised state event footprint hentry := h.of_carries (hlearns.carries_of_summary hentry)

/-- Learning takes nothing out of the summary. -/
theorem Among.mem_of_learns (h : knowledge.Among allowed) (hunambiguous : Unambiguous allowed)
    (hlearns : knowledge.Learns reference later)
    (haccess : access ∈ knowledge.summary.footprintAt state event) :
    access ∈ later.summary.footprintAt state event := by
  have hallowed : allowed access := by
    cases hentry : knowledge.summary.get? state event with
    | none => simp [Summary.footprintAt, hentry] at haccess
    | some footprint =>
      rw [Summary.footprintAt, hentry] at haccess
      exact h.summarised state event footprint hentry access haccess
  induction hlearns with
  | refl => exact haccess
  | absorb _ _ _ _ _ hcarries ih =>
    exact hunambiguous.mem_footprintAt_absorb (h.of_carries hcarries) hallowed ih
  | call _ _ _ _ _ _ _ _ _ ih => exact ih

variable {place : TransitionRef} {transition : Transition}

/-- Completing the event taken at a place does not fail, and all that was recorded of the event is
summarised then. -/
theorem Coherent.eventCompleted_retains (h : knowledge.Coherent reference)
    (hplace : knowledge.log.taken? place = some transition) :
    ∃ later created, knowledge.eventCompleted place reference = (later, .ok created) ∧
      knowledge.Learns reference later ∧ later.Retains place transition := by
  obtain ⟨later, created, hcompleted, hlearns⟩ := h.eventCompleted_learns hplace
  refine ⟨later, created, hcompleted, hlearns, ?_⟩
  have hretains := knowledge.eventCompleted_retains (ExecutionLog.transition?_of_taken? hplace)
    reference
  rwa [hcompleted] at hretains

/-- Learning keeps what is retained. -/
theorem Retains.of_learns (h : knowledge.Retains place transition)
    (hamong : knowledge.Among allowed) (hunambiguous : Unambiguous allowed)
    (hlearns : knowledge.Learns reference later) : later.Retains place transition := by
  intro recorded hrecorded access haccess
  rw [hlearns.log_eq] at hrecorded
  exact hamong.mem_of_learns hunambiguous hlearns (h recorded hrecorded access haccess)

end Knowledge

end EventOrder
