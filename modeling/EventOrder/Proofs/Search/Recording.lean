import EventOrder.Proofs.Program.Dependence
import EventOrder.Proofs.Search.Progress

/-!
# What a search records

Executing an event records those of its accesses that the filter tracks, at the place of its
decision and nowhere else. With no patterns the filter tracks them all.
-/

namespace EventOrder.Search

variable {search : Search} {point : DecisionPoint} {waiting taken : List BacktrackPoint}

/-- The accesses of the due event that the filter tracks. -/
def tracked (search : Search) (point : DecisionPoint) (due : Event) : List Access :=
  (AccessFilter.sift search.explorer.filter (search.accesses point.id due)).1

/-- Whatever is tracked of the due event, it performs. -/
theorem touches_of_tracked {program : Program} (hvalid : program.violation? = none)
    (hcode : search.code = program.code) {due : Event} {access : Access}
    (haccess : access ∈ search.tracked point due) : program.Touches due access := by
  have hobserved := (AccessFilter.sift_sublist _ _).subset haccess
  rw [accesses, hcode] at hobserved
  exact (Program.mem_observations_iff hvalid).mp hobserved

/-- Whatever is recorded of the due event, it performs. -/
theorem touches_of_mem_tracked {program : Program} (hvalid : program.violation? = none)
    (hcode : search.code = program.code) {due : Event} {access : Access}
    (haccess : access ∈ Footprint.ofList (search.tracked point due)) :
    program.Touches due access :=
  touches_of_tracked hvalid hcode (Footprint.mem_of_mem_ofList haccess)

/-- The filter, the configuration and what leads into a state once the due event was executed. -/
theorem advanced_filter (search : Search) (point : DecisionPoint) (due : Event)
    (hreducing : (search.weighed point).reducing = true) :
    (search.advanced point due).explorer.filter =
        (AccessFilter.sift (search.weighed point).filter (search.accesses point.id due)).2 ∧
      (search.advanced point due).explorer.config = (search.weighed point).config ∧
      (search.advanced point due).explorer.knowledge.log =
        (((search.weighed point).proceeded search.machine.state due).observed
          (search.accesses point.id due)).knowledge.log ∧
      (search.advanced point due).explorer.knowledge.summary =
        (search.weighed point).knowledge.summary := by
  obtain ⟨predecessors, hentered⟩ :=
    (((search.weighed point).proceeded search.machine.state due).observed
      (search.accesses point.id due)).stateEntered_eq hreducing (search.stepped due).state
  have hexplorer : (search.advanced point due).explorer =
      (((search.weighed point).proceeded search.machine.state due).observed
        (search.accesses point.id due)).stateEntered (search.stepped due).state := rfl
  rw [hexplorer, hentered]
  exact ⟨rfl, rfl, rfl, rfl⟩

/-- Weighing a decision records nothing. -/
theorem Weighs.footprint?_eq {due : Event} {weighed : Explorer Values PatternFilter}
    (hweighs : search.Weighs point due weighed) (place : TransitionRef) :
    weighed.knowledge.log.footprint? place = search.explorer.knowledge.log.footprint? place := by
  cases hweighs with
  | matched _ hlearns => simp only [hlearns.log_eq]
  | recorded _ hlearns => simp only [hlearns.log_eq, Explorer.footprint?_noted]

/-- Executing the due event records the accesses tracked of it. -/
theorem Underway.footprint?_advanced (h : search.Underway point waiting taken) {due : Event}
    (hdue : due ∈ search.code.events)
    (hrecorded : search.matchesState = false)
    (hweighs : search.Weighs point due (search.weighed point)) (place : TransitionRef) :
    (search.advanced point due).explorer.knowledge.log.footprint? place =
      if place = ⟨search.explorer.current, search.explorer.counter⟩ ∧
          search.tracked point due ≠ [] then
        some (.ofList (search.tracked point due))
      else search.explorer.knowledge.log.footprint? place := by
  obtain ⟨decisions, -, -, hunderway⟩ := (h.weighed hdue hweighs).underway
  rw [(search.advanced_filter point due hunderway.reducing).2.2.1]
  obtain ⟨execution, hget, hmade⟩ := h.explorer.made
  generalize search.weighed point = weighed at hweighs
  cases hweighs with
  | matched hmatches => exact absurd hmatches (by simp [hrecorded])
  | @recorded later _ hlearns =>
    have hnoted := Explorer.get?_noted hget search.machine.view point.id due
    rw [← hlearns.log_eq] at hnoted
    have hblank : ((execution.take ⟨due, search.machine.view.state, some point.id⟩).mapPoint
        point.id search.explorer.counter).footprintAt search.explorer.counter = .empty := by
      simp [Execution.footprintAt, Execution.mapPoint,
        hmade.blank search.explorer.counter (Nat.le_refl _)]
    have hplace : search.explorer.knowledge.log.footprint? place =
        later.log.footprint? place := by
      rw [hlearns.log_eq, Explorer.footprint?_noted]
    rw [Explorer.footprint?_observed hnoted, hplace]
    simp only [Explorer.proceeded, Explorer.noted, Nat.add_sub_cancel, hblank]
    rfl

end EventOrder.Search
