import EventOrder.Trace.Reachability

/-!
# Places at which states were left

Recording a place adds it to the places of one state and of no other. A state is taken to reach the
places that are recorded at the states numbered as high or higher, and no others.
-/

namespace EventOrder.Reachability

variable {graph : Reachability} {state other : StateId} {place another : TransitionRef}

/-- Nothing was left at the start. -/
@[simp]
theorem isRecorded_empty (state : StateId) (place : TransitionRef) :
    empty.isRecorded state place = false := by
  simp [isRecorded, empty]

/-- A recorded place stands at its state besides those recorded before. -/
theorem isRecorded_record :
    (graph.record state place).isRecorded other another = true ↔
      graph.isRecorded other another = true ∨ other = state ∧ another = place := by
  unfold isRecorded record
  rw [Std.ExtTreeMap.getElem?_insert]
  by_cases hstate : other = state
  · subst hstate
    simp [@eq_comm _ place, or_comm]
  · have hne : state ≠ other := fun heq => hstate heq.symm
    simp [hstate, hne]

/-- A place may be recorded at several states at once. -/
theorem isRecorded_foldl_record (states : Std.ExtTreeSet StateId) (graph : Reachability)
    (place : TransitionRef) {other : StateId} {another : TransitionRef} :
    (states.foldl (fun graph state => graph.record state place) graph).isRecorded other another =
        true ↔
      graph.isRecorded other another = true ∨ other ∈ states ∧ another = place := by
  have hfold (listed : List StateId) (graph : Reachability) :
      (listed.foldl (fun graph state => graph.record state place) graph).isRecorded other another =
          true ↔
        graph.isRecorded other another = true ∨ other ∈ listed ∧ another = place := by
    induction listed generalizing graph with
    | nil => simp
    | cons state listed ih =>
      rw [List.foldl_cons, ih, isRecorded_record, List.mem_cons, or_and_right, or_assoc]
  rw [Std.ExtTreeSet.foldl_eq_foldl_toList, hfold, Std.ExtTreeSet.mem_toList]

/-- A state reaches what is recorded at the states numbered as high or higher. -/
theorem mem_reachableFrom :
    place ∈ graph.reachableFrom state ↔
      ∃ left, state.number ≤ left.number ∧ graph.isRecorded left place = true := by
  have hfold (records : List (StateId × Std.ExtTreeSet TransitionRef))
      (places : Std.ExtTreeSet TransitionRef) :
      place ∈ records.foldl (fun places record =>
          if state.number ≤ record.1.number then places ∪ record.2 else places) places ↔
        place ∈ places ∨
          ∃ record ∈ records, state.number ≤ record.1.number ∧ place ∈ record.2 := by
    induction records generalizing places with
    | nil => simp
    | cons record records ih =>
      rw [List.foldl_cons, ih]
      by_cases hhigh : state.number ≤ record.1.number
      · simp [hhigh, or_assoc]
      · simp [hhigh]
  rw [reachableFrom, Std.ExtTreeMap.foldl_eq_foldl_toList, hfold]
  simp only [Std.ExtTreeSet.not_mem_empty, false_or, isRecorded]
  constructor
  · rintro ⟨⟨left, places⟩, hlisted, hhigh, hplace⟩
    refine ⟨left, hhigh, ?_⟩
    rw [Std.ExtTreeMap.mem_toList_iff_getElem?_eq_some.mp hlisted]
    exact Std.ExtTreeSet.contains_iff_mem.mpr hplace
  · rintro ⟨left, hhigh, hrecorded⟩
    cases hplaces : graph.leaving[left]? with
    | none => simp [hplaces] at hrecorded
    | some places =>
      rw [hplaces] at hrecorded
      exact ⟨(left, places), Std.ExtTreeMap.mem_toList_iff_getElem?_eq_some.mpr hplaces, hhigh,
        Std.ExtTreeSet.contains_iff_mem.mp hrecorded⟩

end EventOrder.Reachability
