import EventOrder.Proofs.Race.Gathering

/-!
# What a walk delivers

A walk takes accesses out of what it carries and adds none, so it merges no accesses into the
summary but those of its root. A footprint has one owner for each kind and field, and none of its
accesses displaces another. So what the root tells the summary stays told, whatever way the walk
takes afterwards, around cycles and through other events. When an event was completed, completing it
once more is no news anywhere.
-/

namespace EventOrder

/-- Among these accesses there are no two of one kind to fields of one name. -/
def Unambiguous (allowed : Access → Prop) : Prop :=
  ∀ access other, allowed access → allowed other → other.kind = access.kind →
    other.field = access.field → other = access

variable {allowed : Access → Prop} {access : Access}

/-- The accesses of a footprint are such. -/
theorem Footprint.unambiguous (footprint : Footprint) : Unambiguous (· ∈ footprint) :=
  fun _ _ => eq_of_mem

/-- Merging displaces no access among others of its kind. -/
theorem Unambiguous.mem_merge (h : Unambiguous allowed) {footprint more : Footprint}
    (hmore : ∀ access ∈ more, allowed access) (hallowed : allowed access)
    (haccess : access ∈ footprint) : access ∈ footprint.merge more := by
  rw [Footprint.mem_merge]
  cases howner : (more.entries access.kind)[access.field]? with
  | none => exact Or.inr ⟨haccess, rfl⟩
  | some owner =>
    have hother : (⟨access.kind, access.field, owner⟩ : Access) ∈ more :=
      Footprint.mem_iff.mpr howner
    have hsame := h access _ hallowed (hmore _ hother) rfl rfl
    exact Or.inl (hsame ▸ hother)

/-- Absorbing displaces no access among others of its kind. -/
theorem Unambiguous.mem_footprintAt_absorb (h : Unambiguous allowed) {summary : Summary}
    {state other : StateId} {event another : Event} {footprint : Footprint}
    (hfootprint : ∀ access ∈ footprint, allowed access) (hallowed : allowed access)
    (haccess : access ∈ summary.footprintAt state event) :
    access ∈ (summary.absorb other another footprint).2.footprintAt state event := by
  rw [Summary.footprintAt, Summary.get?_absorb]
  split
  · rename_i hsame
    obtain ⟨-, rfl, rfl⟩ := hsame
    exact h.mem_merge hfootprint hallowed haccess
  · exact haccess

namespace Walk

variable {walk next : Walk} {frame : Frame} {stack : List Frame} {reference : List Event}
  {state : StateId} {event : Event}

/-- Only these accesses travel. -/
def Conveys (walk : Walk) (allowed : Access → Prop) : Prop :=
  ∀ frame ∈ walk.stack, ∀ access ∈ frame.footprint, allowed access

/-- A visit lets no others travel. -/
theorem Conveys.visit (h : walk.Conveys allowed) (hstack : walk.stack = frame :: stack)
    (hvisit : { walk with stack }.visit reference frame = .ok next) : next.Conveys allowed := by
  obtain ⟨state, called, carried, rfl, -, hcalled, -, -, -, hpart⟩ := exists_absorb_of_visit hvisit
  intro other hother access haccess
  rcases mem_stack_absorb hother with hold | ⟨-, -, hnews⟩
  · rw [hcalled] at hold
    exact h other (by simp [hstack, show other ∈ stack from hold]) access haccess
  · rw [hnews] at haccess
    have hcarried := (Summary.mem_absorb_fst.mp haccess).1
    exact h frame (by simp [hstack]) access (hpart access hcarried)

/-- A visit displaces none of them. -/
theorem Conveys.mem_footprintAt_visit (h : walk.Conveys allowed)
    (hunambiguous : Unambiguous allowed) (hstack : walk.stack = frame :: stack)
    (hvisit : { walk with stack }.visit reference frame = .ok next) (hallowed : allowed access)
    (haccess : access ∈ walk.knowledge.summary.footprintAt state event) :
    access ∈ next.knowledge.summary.footprintAt state event := by
  obtain ⟨other, called, carried, rfl, -, -, -, -, hsummary, hpart⟩ :=
    exists_absorb_of_visit hvisit
  have hcarried (held : Access) (hheld : held ∈ carried.footprint) : allowed held :=
    h frame (by simp [hstack]) held (hpart held hheld)
  refine hunambiguous.mem_footprintAt_absorb hcarried hallowed ?_
  rw [hsummary]
  exact haccess

/-- Nor does a run, however it ends. -/
theorem Conveys.mem_footprintAt_run (h : walk.Conveys allowed) (hunambiguous : Unambiguous allowed)
    (steps : Nat) (hallowed : allowed access)
    (haccess : access ∈ walk.knowledge.summary.footprintAt state event) :
    access ∈ (walk.run reference steps).1.knowledge.summary.footprintAt state event :=
  (run_keeps
    (motive := fun walk => walk.Conveys allowed ∧
      access ∈ walk.knowledge.summary.footprintAt state event)
    (fun _ _ _ _ hstack hvisit ⟨hconveys, hheld⟩ => ⟨hconveys.visit hstack hvisit,
      hconveys.mem_footprintAt_visit hunambiguous hstack hvisit hallowed hheld⟩)
    steps ⟨h, haccess⟩).2

/-- The first visit of a walk absorbs the root as it is, if that is not to be checked. -/
theorem run_start_of_unchecked {knowledge : Knowledge} {root : Frame} {transition : Transition}
    (hplace : knowledge.log.transition? root.place = some transition)
    (hcheck : root.check = false) (steps : Nat) :
    (start knowledge root).run reference (steps + 1) =
      (({ start knowledge root with stack := [] } : Walk).absorb transition.state root).run
        reference steps := by
  have hvisit : ({ start knowledge root with stack := [] } : Walk).visit reference root =
      .ok (({ start knowledge root with stack := [] } : Walk).absorb transition.state root) :=
    visit_of_conflictRest?_eq_none hplace (by simp [conflictRest?, hcheck])
  simp only [start] at hvisit
  simp only [run, start, hvisit]

end Walk

namespace Knowledge

variable {knowledge later : Knowledge} {place : TransitionRef} {transition : Transition}
  {reference : List Event}

/-- What was recorded where the transition was taken is summarised for its event at its state. -/
def Retains (knowledge : Knowledge) (place : TransitionRef) (transition : Transition) : Prop :=
  ∀ recorded, knowledge.log.footprint? place = some recorded → ∀ access ∈ recorded,
    access ∈ knowledge.summary.footprintAt transition.state transition.event

/-- A walk leaves the executions as they are. -/
theorem log_propagate (knowledge : Knowledge) (root : Frame) (reference : List Event) :
    (knowledge.propagate root reference).1.log = knowledge.log :=
  have hrooted : knowledge.Rooted fun _ => True := fun _ _ _ => trivial
  (hrooted.propagate_gathers root trivial reference).log_eq

/-- A walk from an unchecked root delivers all its accesses, failed or not. -/
theorem mem_footprintAt_propagate {root : Frame}
    (hplace : knowledge.log.transition? root.place = some transition)
    (hcheck : root.check = false) (reference : List Event) {access : Access}
    (haccess : access ∈ root.footprint) :
    access ∈ (knowledge.propagate root reference).1.summary.footprintAt transition.state
      root.event := by
  obtain ⟨steps, hsteps⟩ : ∃ steps, knowledge.walkBound = steps + 1 := ⟨_, rfl⟩
  rw [propagate_fst, hsteps, Walk.run_start_of_unchecked hplace hcheck]
  have hconveys : (({ Walk.start knowledge root with stack := [] } : Walk).absorb transition.state
      root).Conveys (· ∈ root.footprint) := by
    intro frame hframe held hheld
    rcases Walk.mem_stack_absorb hframe with hnone | ⟨-, -, hnews⟩
    · exact absurd hnone List.not_mem_nil
    · rw [hnews] at hheld
      exact (Summary.mem_absorb_fst.mp hheld).1
  have hroot := Summary.mem_footprintAt_absorb_self knowledge.summary transition.state root.event
    haccess
  exact hconveys.mem_footprintAt_run root.footprint.unambiguous steps haccess hroot

/-- A walk from an unchecked root whose accesses are all known learns nothing. -/
theorem propagate_of_known {root : Frame}
    (hplace : knowledge.log.transition? root.place = some transition)
    (hcheck : root.check = false) (reference : List Event)
    (hknown : ∀ access ∈ root.footprint,
      access ∈ knowledge.summary.footprintAt transition.state root.event) :
    knowledge.propagate root reference = (knowledge, .ok 0) := by
  obtain ⟨steps, hsteps⟩ : ∃ steps, knowledge.walkBound = steps + 1 := ⟨_, rfl⟩
  have habsorb := Summary.absorb_of_forall_mem hknown
  have hempty : Footprint.empty.isEmpty = true := rfl
  unfold propagate
  rw [hsteps, Walk.run_start_of_unchecked hplace hcheck]
  cases steps <;> simp [Walk.run, Walk.absorb, Walk.start, habsorb, hempty]

/-- When an event has completed, all that was recorded of it is summarised. -/
theorem eventCompleted_retains (hplace : knowledge.log.transition? place = some transition)
    (reference : List Event) :
    (knowledge.eventCompleted place reference).1.Retains place transition := by
  intro recorded hrecorded access haccess
  unfold eventCompleted at hrecorded ⊢
  cases hfootprint : knowledge.log.footprint? place with
  | none => simp [hfootprint] at hrecorded
  | some footprint =>
    simp only [hfootprint, Walk.transitionAt_eq hplace] at hrecorded ⊢
    rw [log_propagate, hfootprint, Option.some.injEq] at hrecorded
    subst hrecorded
    let root : Frame := ⟨place, transition.event, footprint, false⟩
    have hroot : knowledge.log.transition? root.place = some transition := hplace
    exact mem_footprintAt_propagate hroot rfl reference haccess

/-- When all that was recorded of an event is summarised, completing it changes nothing. -/
theorem Retains.eventCompleted_eq (h : knowledge.Retains place transition)
    (hplace : knowledge.log.transition? place = some transition) (reference : List Event) :
    knowledge.eventCompleted place reference = (knowledge, .ok 0) := by
  unfold eventCompleted
  cases hfootprint : knowledge.log.footprint? place with
  | none => rfl
  | some footprint =>
    simp only [Walk.transitionAt_eq hplace]
    let root : Frame := ⟨place, transition.event, footprint, false⟩
    have hroot : knowledge.log.transition? root.place = some transition := hplace
    exact propagate_of_known hroot rfl reference (h footprint hfootprint)

/-- Completing an event a second time calls for no reordering and changes nothing. -/
theorem eventCompleted_again {created : Nat}
    (h : knowledge.eventCompleted place reference = (later, .ok created)) :
    later.eventCompleted place reference = (later, .ok 0) := by
  have hlater : later = (knowledge.eventCompleted place reference).1 := by rw [h]
  have hlog : later.log = knowledge.log := by
    rw [hlater]
    unfold eventCompleted
    split
    · rfl
    · split
      · rfl
      · exact log_propagate _ _ _
  cases hplace : knowledge.log.transition? place with
  | some transition =>
    have hretains := eventCompleted_retains hplace reference
    rw [← hlater] at hretains
    exact hretains.eventCompleted_eq (hlog ▸ hplace) reference
  | none =>
    -- No event was taken there, so nothing can have been recorded: completing it would fail.
    cases hfootprint : knowledge.log.footprint? place with
    | none => simp [eventCompleted, hlog, hfootprint]
    | some footprint => simp [eventCompleted, hfootprint, transitionAt, hplace] at h

/-- Events 0 and 1 lead from states 1 and 2 into each other and conflict in two fields, and event 1
was known to write one of them of another owner. -/
def circling : Knowledge :=
  let first := Footprint.ofList [⟨.write, "x", ⟨1⟩⟩, ⟨.write, "z", ⟨1⟩⟩]
  let second := first.record ⟨.read, "w", ⟨1⟩⟩
  let execution := ((Execution.start none).push ⟨⟨0⟩, ⟨1⟩, none⟩).push ⟨⟨1⟩, ⟨2⟩, none⟩
  { log := ExecutionLog.empty.add ((execution.setFootprint 0 first).setFootprint 1 second)
    summary := Summary.empty.insert ⟨2⟩ ⟨1⟩ (Footprint.ofList [⟨.write, "x", ⟨2⟩⟩])
    reached := .empty
    predecessors := (Predecessors.empty.record ⟨2⟩ ⟨⟨0⟩, 0⟩).record ⟨1⟩ ⟨⟨0⟩, 1⟩
    backlog := .empty }

/-- The first completion of event 1 calls for both reorderings, once around the circle and back at
its own state, the second one for none. -/
theorem eventCompleted_again_circling :
    ∃ later, circling.eventCompleted ⟨⟨0⟩, 1⟩ [⟨0⟩, ⟨1⟩] = (later, .ok 2) ∧
      later.backlog.isConstructed ⟨1⟩ ⟨1⟩ = true ∧ later.backlog.isConstructed ⟨2⟩ ⟨0⟩ = true ∧
        later.eventCompleted ⟨⟨0⟩, 1⟩ [⟨0⟩, ⟨1⟩] = (later, .ok 0) := by
  have hfirst : (circling.eventCompleted ⟨⟨0⟩, 1⟩ [⟨0⟩, ⟨1⟩]).2 = .ok 2 ∧
      (circling.eventCompleted ⟨⟨0⟩, 1⟩ [⟨0⟩, ⟨1⟩]).1.backlog.isConstructed ⟨1⟩ ⟨1⟩ = true ∧
        (circling.eventCompleted ⟨⟨0⟩, 1⟩ [⟨0⟩, ⟨1⟩]).1.backlog.isConstructed ⟨2⟩ ⟨0⟩ = true := by
    decide +kernel
  obtain ⟨hcompleted, hahead, hback⟩ := hfirst
  exact ⟨_, Prod.ext rfl hcompleted, hahead, hback,
    eventCompleted_again (Prod.ext rfl hcompleted)⟩

end Knowledge

end EventOrder
