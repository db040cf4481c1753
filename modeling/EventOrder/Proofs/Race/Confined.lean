import EventOrder.Proofs.Race.Learning

/-!
# Events that keep apart

When no two events access one location that one of them writes, no access is ever attributed to an
event that does not perform it. A footprint is then only carried for the event that it was recorded
for, no conflict is found, and no walk calls for a reordering.
-/

namespace EventOrder.Knowledge

variable {knowledge later : Knowledge} {reference : List Event} {touches : Event → Access → Prop}

/-- No two events access one location that one of them writes. -/
def Apart (touches : Event → Access → Prop) : Prop :=
  ∀ first second access other, first ≠ second → touches first access → touches second other →
    other.field = access.field → other.owner = access.owner →
      ¬(access.kind = .write ∨ other.kind = .write)

/-- Events are known to perform no access but their own. -/
structure Confined (knowledge : Knowledge) (touches : Event → Access → Prop) : Prop where
  /-- What was recorded where an event was taken are accesses of the event. -/
  recorded : ∀ place transition footprint, knowledge.log.taken? place = some transition →
    knowledge.log.footprint? place = some footprint →
      ∀ access ∈ footprint, touches transition.event access
  /-- What is summarised for an event are accesses of the event. -/
  summarised : ∀ state event footprint, knowledge.summary.get? state event = some footprint →
    ∀ access ∈ footprint, touches event access

/-- There is no conflict between accesses of events that keep apart. -/
theorem Apart.takeConflict?_eq_none (hapart : Apart touches) {first second : Event}
    (hne : first ≠ second) {footprint recorded : Footprint}
    (hfirst : ∀ access ∈ footprint, touches first access)
    (hsecond : ∀ access ∈ recorded, touches second access) :
    footprint.takeConflict? recorded = none := by
  rw [Footprint.takeConflict?_eq_none_iff]
  intro access haccess
  rw [← Bool.not_eq_true, Footprint.conflictsWith_iff]
  rintro ⟨other, hother, hfield, howner, hwrite⟩
  exact hapart first second access other hne (hfirst access haccess) (hsecond other hother) hfield
    howner hwrite

/-- Whatever a walk carries for an event are accesses of the event. -/
theorem Confined.touches_of_carries (h : knowledge.Confined touches) (hapart : Apart touches)
    {event : Event} {footprint : Footprint} (hcarries : knowledge.Carries event footprint) :
    ∀ access ∈ footprint, touches event access := by
  induction hcarries with
  | recorded htaken hfootprint => exact h.recorded _ _ _ htaken hfootprint
  | summarised hentry => exact h.summarised _ _ _ hentry
  | part _ hpart ih => exact fun access haccess => ih access (hpart access haccess)
  | merge _ _ ih hmore =>
    intro access haccess
    rcases Footprint.mem_merge.mp haccess with hnew | ⟨hold, -⟩
    · exact hmore access hnew
    · exact ih access hold
  | handed _ htaken hrecorded hother hconflict ih =>
    have hnone := hapart.takeConflict?_eq_none hother.symm ih (h.recorded _ _ _ htaken hrecorded)
    rw [hnone] at hconflict
    exact absurd hconflict (by simp)

/-- What is learnt stays confined, and no reordering is called for. -/
theorem Confined.of_learns (h : knowledge.Confined touches) (hapart : Apart touches)
    (hlearns : knowledge.Learns reference later) :
    later.Confined touches ∧ later.backlog = knowledge.backlog := by
  refine ⟨⟨fun place transition footprint htaken hfootprint => ?_,
    fun state event footprint hentry => ?_⟩, ?_⟩
  · rw [hlearns.log_eq] at htaken hfootprint
    exact h.recorded place transition footprint htaken hfootprint
  · exact h.touches_of_carries hapart (hlearns.carries_of_summary hentry)
  · induction hlearns with
    | refl => rfl
    | absorb _ _ _ _ _ _ ih => exact ih
    | call place event _ htaken _ hcarries hrecorded hother hconflict _ =>
      have hnone := hapart.takeConflict?_eq_none hother.symm
        (h.touches_of_carries hapart hcarries) (h.recorded _ _ _ htaken hrecorded)
      rw [hnone] at hconflict
      exact absurd hconflict (by simp)

end EventOrder.Knowledge
