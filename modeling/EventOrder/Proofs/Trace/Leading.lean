import EventOrder.Trace.Predecessors

/-!
# Places that lead into a state

Recording a place adds it to the predecessors of one state and of no other. The number of records
bounds both the predecessors of any one state and the places recorded at all.
-/

namespace EventOrder.Predecessors

/-- Nothing leads anywhere at the start. -/
@[simp]
theorem of_empty (state : StateId) : empty.of state = [] := by
  simp [of, empty]

/-- A place is recorded behind the places of its state, unless it is one of them. -/
theorem of_record (predecessors : Predecessors) (state other : StateId) (place : TransitionRef) :
    (predecessors.record state place).of other =
      if other = state ∧ place ∉ predecessors.of state then predecessors.of other ++ [place]
      else predecessors.of other := by
  have hmem : predecessors.isRecorded state place = true ↔ place ∈ predecessors.of state := by
    simp [isRecorded, of]
  unfold record
  split
  · rename_i hrecorded
    simp [hmem.mp hrecorded]
  · rename_i hnew
    rw [hmem] at hnew
    by_cases hstate : other = state
    · subst hstate
      rw [if_pos ⟨rfl, hnew⟩]
      simp [of]
    · have hne : state ≠ other := fun heq => hstate heq.symm
      simp [of, Std.ExtTreeMap.getElem?_insert, hne, hstate]

/-- A recorded place leads into its state besides those recorded before. -/
theorem mem_of_record {predecessors : Predecessors} {state other : StateId}
    {place another : TransitionRef} :
    another ∈ (predecessors.record state place).of other ↔
      another ∈ predecessors.of other ∨ other = state ∧ another = place := by
  rw [of_record]
  split
  · rename_i hnew
    simp [hnew.1]
  · rename_i hold
    constructor
    · exact Or.inl
    · rintro (hmem | ⟨rfl, rfl⟩)
      · exact hmem
      · exact Decidable.byContradiction fun hnew => hold ⟨rfl, hnew⟩

/-- The place recorded first at a state stays the first. -/
theorem head?_of_record {predecessors : Predecessors} {state other : StateId}
    {place first : TransitionRef} (h : (predecessors.of other).head? = some first) :
    ((predecessors.record state place).of other).head? = some first := by
  rw [of_record]
  split
  · rw [List.head?_append, h]
    rfl
  · exact h

/-- No place is recorded twice at a state. -/
theorem nodup_of_record {predecessors : Predecessors} {state other : StateId}
    (h : (predecessors.of other).Nodup) (place : TransitionRef) :
    ((predecessors.record state place).of other).Nodup := by
  rw [of_record]
  split
  · rename_i hnew
    obtain ⟨rfl, hnew⟩ := hnew
    rw [List.nodup_append]
    refine ⟨h, List.nodup_cons.mpr ⟨List.not_mem_nil, List.nodup_nil⟩, ?_⟩
    rintro known hknown _ hplace rfl
    exact hnew (List.mem_singleton.mp hplace ▸ hknown)
  · exact h

/-- The places recorded at any state. -/
def places (predecessors : Predecessors) : List TransitionRef :=
  predecessors.into.toList.flatMap fun record => record.2.toList

/-- There are as many places as records. -/
theorem length_places (predecessors : Predecessors) :
    predecessors.places.length = predecessors.size := by
  have hfold (records : List (StateId × Array TransitionRef)) (total : Nat) :
      records.foldl (fun total record => total + record.2.size) total =
        total + (records.flatMap fun record => record.2.toList).length := by
    induction records generalizing total with
    | nil => simp
    | cons record records ih =>
      have hhere : record.2.toList.length = record.2.size := Array.length_toList
      rw [List.foldl_cons, ih, List.flatMap_cons, List.length_append]
      omega
  rw [size, Std.ExtTreeMap.foldl_eq_foldl_toList, hfold, Nat.zero_add]
  rfl

/-- The predecessors of a state are a part of all places. -/
theorem sublist_places (predecessors : Predecessors) (state : StateId) :
    (predecessors.of state).Sublist predecessors.places := by
  cases hentry : predecessors.into[state]? with
  | none => simp [of, hentry]
  | some places =>
    have hmem : (state, places) ∈ predecessors.into.toList :=
      Std.ExtTreeMap.mem_toList_iff_getElem?_eq_some.mpr hentry
    obtain ⟨before, after, hsplit⟩ := List.append_of_mem hmem
    have hplaces : predecessors.places =
        (before.flatMap fun record => record.2.toList) ++
          (places.toList ++ after.flatMap fun record => record.2.toList) := by
      rw [Predecessors.places, hsplit, List.flatMap_append, List.flatMap_cons]
    rw [hplaces]
    simp only [of, hentry, Option.getD_some]
    exact (List.sublist_append_left _ _).trans (List.sublist_append_right _ _)

/-- A state has no more predecessors than there are records. -/
theorem length_of_le (predecessors : Predecessors) (state : StateId) :
    (predecessors.of state).length ≤ predecessors.size :=
  predecessors.length_places ▸ (predecessors.sublist_places state).length_le

end EventOrder.Predecessors
