import EventOrder.Proofs.Race.Spreading

/-!
# The opening of an exploration

In its first execution an exploration knows only the events that this execution took. Each place
leads into the state of the next one, and an event is summarised only once it was completed. So an
event that comes up for the first time calls for a reordering when it completes, if it depends on
any event before it.
-/

namespace EventOrder

/-- An access that conflicts with an access of an earlier footprint is a conflict of the whole
footprints. -/
theorem Footprint.takeConflict?_ne_none {footprint earlier : Footprint} {access other : Access}
    (haccess : access ∈ footprint) (hother : other ∈ earlier) (hfield : other.field = access.field)
    (howner : other.owner = access.owner) (hwrite : access.kind = .write ∨ other.kind = .write) :
    footprint.takeConflict? earlier ≠ none := by
  rw [Ne, takeConflict?_eq_none_iff]
  intro hnone
  have hconflict := conflictsWith_iff.mpr ⟨other, hother, hfield, howner, hwrite⟩
  rw [hnone access haccess] at hconflict
  exact absurd hconflict (by simp)

namespace Knowledge

variable {knowledge later : Knowledge} {reference : List Event} {touches : Event → Access → Prop}
  {execution : ExecutionId} {executed completed : Nat}

/-- What is known in the first execution, when events were executed and completed up to these
positions of it. -/
structure Opening (knowledge : Knowledge) (touches : Event → Access → Prop)
    (execution : ExecutionId) (executed completed : Nat) : Prop where
  /-- Accesses are recorded where events of this execution were executed, and nowhere else. -/
  alone : ∀ place transition footprint, knowledge.log.taken? place = some transition →
    knowledge.log.footprint? place = some footprint →
      place.execution = execution ∧ place.position < executed
  /-- All accesses of an event are recorded where it was executed. -/
  recorded : ∀ position transition access, position < executed →
    knowledge.log.taken? ⟨execution, position⟩ = some transition →
      touches transition.event access →
        ∃ footprint, knowledge.log.footprint? ⟨execution, position⟩ = some footprint ∧
          access ∈ footprint
  /-- A place leads into the state of the next one. -/
  leads : ∀ position transition, position + 1 < executed →
    knowledge.log.taken? ⟨execution, position + 1⟩ = some transition →
      ⟨execution, position⟩ ∈ knowledge.predecessors.of transition.state
  /-- An event is summarised only when it was completed. -/
  summarised : ∀ state event, (knowledge.summary.get? state event).isSome = true →
    ∃ position transition, position < completed ∧
      knowledge.log.taken? ⟨execution, position⟩ = some transition ∧ transition.event = event

/-- An event that accesses are carried for was executed. -/
private theorem Opening.executed_of_carries
    (h : knowledge.Opening touches execution executed completed)
    (hcompleted : completed ≤ executed) {event : Event} {footprint : Footprint}
    (hcarries : knowledge.Carries event footprint) :
    ∃ position transition, position < executed ∧
      knowledge.log.taken? ⟨execution, position⟩ = some transition ∧ transition.event = event := by
  have hplace {place : TransitionRef} {transition : Transition} {recorded : Footprint}
      (htaken : knowledge.log.taken? place = some transition)
      (hrecorded : knowledge.log.footprint? place = some recorded) :
      ∃ position other, position < executed ∧
        knowledge.log.taken? ⟨execution, position⟩ = some other ∧
          other.event = transition.event := by
    obtain ⟨hexecution, hposition⟩ := h.alone _ _ _ htaken hrecorded
    exact ⟨place.position, transition, hposition, hexecution ▸ htaken, rfl⟩
  induction hcarries with
  | recorded htaken hfootprint => exact hplace htaken hfootprint
  | @summarised state event _ hentry =>
    obtain ⟨position, transition, hposition, htaken, hevent⟩ :=
      h.summarised state event (by simp [hentry])
    exact ⟨position, transition, by omega, htaken, hevent⟩
  | part _ _ ih => exact ih
  | merge _ _ ih => exact ih
  | handed _ htaken hrecorded => exact hplace htaken hrecorded

/-- Whatever is learnt is about events that were executed. -/
theorem Opening.learns (h : knowledge.Opening touches execution executed completed)
    (hcompleted : completed ≤ executed) (hlearns : knowledge.Learns reference later) :
    later.Opening touches execution executed executed := by
  have hlog := hlearns.log_eq
  have hpredecessors := hlearns.predecessors_eq
  refine ⟨?_, ?_, ?_, fun state event hentry => ?_⟩
  · rw [hlog]
    exact h.alone
  · rw [hlog]
    exact h.recorded
  · rw [hlog, hpredecessors]
    exact h.leads
  · obtain ⟨footprint, hentry⟩ := Option.isSome_iff_exists.mp hentry
    rw [hlog]
    exact h.executed_of_carries hcompleted (hlearns.carries_of_summary hentry)

/-- Every place of the execution leads to the later ones. -/
private theorem Opening.leadsTo (h : knowledge.Opening touches execution executed completed)
    (htaken : ∀ position < executed,
      ∃ transition, knowledge.log.taken? ⟨execution, position⟩ = some transition)
    {first distance : Nat} (hlast : first + distance < executed) :
    knowledge.LeadsTo ⟨execution, first + distance⟩ ⟨execution, first⟩ := by
  induction distance generalizing first with
  | zero => exact .refl
  | succ distance ih =>
    obtain ⟨transition, hnext⟩ := htaken (first + 1) (by omega)
    have hrest := ih (by omega : first + 1 + distance < executed)
    rw [Nat.add_right_comm] at hrest
    exact hrest.step hnext (h.leads first transition (by omega) hnext)

/-- The event executed last calls for a reordering when it completes, if it was not executed before
and depends on an event that was. -/
theorem Opening.eventCompleted_calls
    (h : knowledge.Opening touches execution (completed + 1) completed)
    (hknowledge : knowledge.Coherent reference) (hsilent : knowledge.backlog.Ledger [] [])
    (htaken : ∀ position < completed + 1,
      ∃ transition, knowledge.log.taken? ⟨execution, position⟩ = some transition)
    {position : Nat} {transition other : Transition} {access earlierAccess : Access}
    (hposition : position < completed)
    (hlast : knowledge.log.taken? ⟨execution, completed⟩ = some transition)
    (hearlier : knowledge.log.taken? ⟨execution, position⟩ = some other)
    (hnew : ∀ before another, before < completed →
      knowledge.log.taken? ⟨execution, before⟩ = some another → another.event ≠ transition.event)
    (haccess : touches transition.event access) (hother : touches other.event earlierAccess)
    (hfield : earlierAccess.field = access.field) (howner : earlierAccess.owner = access.owner)
    (hwrite : access.kind = .write ∨ earlierAccess.kind = .write) :
    ∃ later created,
      knowledge.eventCompleted ⟨execution, completed⟩ reference = (later, .ok created) ∧
        0 < later.backlog.created := by
  obtain ⟨footprint, hfootprint, hmem⟩ :=
    h.recorded completed transition access (Nat.lt_succ_self _) hlast haccess
  obtain ⟨recorded, hrecorded, hrecordedMem⟩ :=
    h.recorded position other earlierAccess (by omega) hearlier hother
  have hleads : knowledge.LeadsTo ⟨execution, completed⟩ ⟨execution, position⟩ := by
    obtain ⟨distance, rfl⟩ := Nat.exists_eq_add_of_le (Nat.le_of_lt hposition)
    exact h.leadsTo htaken (Nat.lt_succ_self _)
  refine hknowledge.eventCompleted_calls hsilent hlast hfootprint (fun state => ?_) hleads hearlier
    hrecorded
    (hnew position other hposition hearlier)
    (Footprint.takeConflict?_ne_none hmem hrecordedMem hfield howner hwrite)
  rw [Option.eq_none_iff_forall_not_mem]
  intro entry hentry
  obtain ⟨before, another, hbefore, htakenBefore, hevent⟩ :=
    h.summarised state transition.event (by simp [Option.mem_def.mp hentry])
  exact hnew before another hbefore htakenBefore hevent

end Knowledge

end EventOrder
