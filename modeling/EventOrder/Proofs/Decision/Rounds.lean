import EventOrder.Decision.Schedule
import Mathlib.Data.List.Nodup
import Mathlib.Data.Nat.ModEq

/-!
# Rounds of a schedule

A schedule without repetitions brings up every event once in each round, whichever position the
round is counted from. The same event is due at two positions just when they are whole rounds apart.
-/

namespace EventOrder.Schedule

variable {schedule : Schedule} {event : Event}

/-- Positions at which one event is due stand at the same place of their rounds. -/
theorem mod_eq_of_eventAt? (hdistinct : schedule.order.Nodup) {first second : Nat}
    (hfirst : schedule.eventAt? first = some event)
    (hsecond : schedule.eventAt? second = some event) :
    first % schedule.order.length = second % schedule.order.length := by
  obtain ⟨hbound, hevent⟩ := List.getElem?_eq_some_iff.mp hfirst
  obtain ⟨hother, hsame⟩ := List.getElem?_eq_some_iff.mp hsecond
  exact (hdistinct.getElem_inj_iff).mp (hevent.trans hsame.symm)

/-- An event that is due again is due a whole round later or more. -/
theorem add_length_le_of_eventAt? (hdistinct : schedule.order.Nodup) {first second : Nat}
    (hlt : first < second) (hfirst : schedule.eventAt? first = some event)
    (hsecond : schedule.eventAt? second = some event) :
    first + schedule.order.length ≤ second := by
  have hmod := mod_eq_of_eventAt? hdistinct hfirst hsecond
  have hdivides : schedule.order.length ∣ second - first :=
    (Nat.modEq_iff_dvd' (Nat.le_of_lt hlt)).mp hmod
  have hbound := Nat.le_of_dvd (by omega) hdivides
  omega

/-- Every event of the schedule is due within a round from any position on. -/
theorem exists_eventAt?_of_mem (hmem : event ∈ schedule.order) (start : Nat) :
    ∃ position, start ≤ position ∧ position < start + schedule.order.length ∧
      schedule.eventAt? position = some event := by
  obtain ⟨index, hindex, hevent⟩ := List.getElem_of_mem hmem
  have hpositive : 0 < schedule.order.length := Nat.zero_lt_of_lt hindex
  have hstart := Nat.mod_lt start hpositive
  have hdivide := Nat.div_add_mod start schedule.order.length
  -- The place of the event lies ahead in the round of the start or else in the next round.
  have hdue (round : Nat) :
      schedule.eventAt? (schedule.order.length * round + index) = some event := by
    rw [eventAt?, Nat.mul_add_mod, Nat.mod_eq_of_lt hindex, List.getElem?_eq_getElem hindex, hevent]
  by_cases hahead : start % schedule.order.length ≤ index
  · exact ⟨_, by omega, by omega, hdue (start / schedule.order.length)⟩
  · refine ⟨_, ?_, ?_, hdue (start / schedule.order.length + 1)⟩
    · rw [Nat.mul_add, Nat.mul_one]
      omega
    · rw [Nat.mul_add, Nat.mul_one]
      omega

end EventOrder.Schedule
