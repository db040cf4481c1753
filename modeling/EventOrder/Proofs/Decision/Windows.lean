import EventOrder.Proofs.Decision.Rounds

/-!
# Stretches of a schedule

Over a stretch of decisions a schedule without repetitions brings up each of its events as often as
in whole rounds, rounded down or up, wherever the stretch begins: a stretch of one round brings up
every event once, a shorter one none of them twice, and a longer one is a round and a stretch that
is a round shorter.
-/

namespace EventOrder.Schedule

variable {schedule : Schedule} {event : Event}

/-- The events that are due at so many decisions, beginning with the one of the given position. -/
def due (schedule : Schedule) (first length : Nat) : List Event :=
  (List.range' first length).filterMap schedule.eventAt?

/-- A stretch can be cut in two. -/
theorem due_add (schedule : Schedule) (first length more : Nat) :
    schedule.due first (length + more) =
      schedule.due first length ++ schedule.due (first + length) more := by
  rw [due, ← List.range'_append_1, List.filterMap_append]
  rfl

/-- Up to a round no event is due twice. -/
theorem nodup_due (hdistinct : schedule.order.Nodup) (first : Nat) {length : Nat}
    (hlength : length ≤ schedule.order.length) : (schedule.due first length).Nodup := by
  rw [due, List.Nodup, List.pairwise_filterMap]
  refine (List.pairwise_lt_range' 1).imp_of_mem ?_
  intro position later hposition hlater hlt event hevent other hother heq
  subst heq
  -- The later position is within the stretch, so it is less than a round away.
  have hround := add_length_le_of_eventAt? hdistinct hlt hevent hother
  rw [List.mem_range'_1] at hposition hlater
  omega

/-- Over a round every event is due. -/
theorem mem_due (hmem : event ∈ schedule.order) (first : Nat) :
    event ∈ schedule.due first schedule.order.length := by
  obtain ⟨position, hfirst, hbound, hevent⟩ := exists_eventAt?_of_mem hmem first
  exact List.mem_filterMap.mpr ⟨position, List.mem_range'_1.mpr ⟨hfirst, hbound⟩, hevent⟩

/-- Over a stretch every event is due as often as in whole rounds, rounded down or up. -/
theorem count_due (hdistinct : schedule.order.Nodup) (hmem : event ∈ schedule.order)
    (first length : Nat) :
    (schedule.due first length).count event = length / schedule.order.length ∨
      (schedule.due first length).count event =
        (length + schedule.order.length - 1) / schedule.order.length := by
  have hpositive : 0 < schedule.order.length := List.length_pos_of_mem hmem
  induction length using Nat.strong_induction_on generalizing first with
  | _ length ih =>
    by_cases hshort : length < schedule.order.length
    · have honce := List.nodup_iff_count_le_one.mp
        (nodup_due hdistinct first (Nat.le_of_lt hshort)) event
      rw [Nat.div_eq_of_lt hshort]
      rcases Nat.eq_zero_or_pos length with rfl | hsome
      · exact Or.inl rfl
      · rw [Nat.div_eq_of_lt_le (k := 1) (by omega) (by omega)]
        omega
    · obtain ⟨rest, rfl⟩ := Nat.exists_eq_add_of_le (Nat.le_of_not_lt hshort)
      have hround := List.count_eq_one_of_mem (nodup_due hdistinct first (Nat.le_refl _))
        (mem_due hmem first)
      have hdown : (schedule.order.length + rest) / schedule.order.length =
          1 + rest / schedule.order.length := by
        rw [Nat.add_div_left _ hpositive, Nat.add_comm]
      have hup : (schedule.order.length + rest + schedule.order.length - 1) /
            schedule.order.length =
          1 + (rest + schedule.order.length - 1) / schedule.order.length := by
        rw [Nat.add_assoc, Nat.add_sub_assoc (by omega), Nat.add_div_left _ hpositive, Nat.add_comm]
      rw [due_add, List.count_append, hround, hdown, hup]
      have hrest := ih rest (by omega) (first + schedule.order.length)
      omega

/-- Events that are the ones due at their positions are, over any stretch of them, the ones due
there. -/
theorem take_drop_eq_due {events : List Event}
    (hdue : ∀ position event, events[position]? = some event →
      schedule.eventAt? position = some event)
    {first length : Nat} (hbound : first + length ≤ events.length) :
    (events.drop first).take length = schedule.due first length := by
  have hsame : (List.range' first length).map schedule.eventAt? =
      ((events.drop first).take length).map some := by
    refine List.ext_getElem? fun index => ?_
    by_cases hindex : index < length
    · have hposition : first + index < events.length := by omega
      simp [hindex, hdue _ _ (List.getElem?_eq_getElem hposition),
        List.getElem?_eq_getElem hposition]
    · simp [hindex]
  calc (events.drop first).take length
      = (((events.drop first).take length).map some).filterMap id := by simp [List.filterMap_map]
    _ = schedule.due first length := by rw [← hsame, List.filterMap_map]; rfl

end EventOrder.Schedule
