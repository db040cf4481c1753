import EventOrder.Proofs.Footprint.Accesses
import EventOrder.Race.Summary

/-!
# Absorption into the summary

Absorbing a footprint changes the entry of one event at one state and answers exactly the accesses
that this entry did not hold before.
-/

namespace EventOrder.Summary

/-- Storing a footprint changes the entry of its state and event and no other. -/
theorem get?_insert (summary : Summary) (state other : StateId) (event another : Event)
    (footprint : Footprint) :
    (summary.insert state event footprint).get? other another =
      if state = other ∧ event = another then some footprint else summary.get? other another := by
  simp only [get?, insert, Std.ExtTreeMap.getElem?_insert, Std.compare_eq_iff_eq]
  by_cases hstate : state = other
  · subst hstate
    by_cases hevent : event = another
    · simp [hevent]
    · cases hentry : summary.entries[state]? <;>
        simp [hevent, Std.ExtTreeMap.getElem?_insert]
  · simp [hstate]

/-- The news of a footprint are its accesses that were not in the entry. -/
theorem absorb_fst (summary : Summary) (state : StateId) (event : Event) (footprint : Footprint) :
    (summary.absorb state event footprint).1 =
      footprint.minus (summary.footprintAt state event) := by
  unfold absorb
  split
  · rename_i hempty
    apply Footprint.eq_of_forall_mem_iff
    intro access
    simp [Footprint.mem_minus, Footprint.isEmpty_iff.mp hempty access]
  · rfl

/-- An access is news when the footprint holds it and the entry does not. -/
theorem mem_absorb_fst {summary : Summary} {state : StateId} {event : Event}
    {footprint : Footprint} {access : Access} :
    access ∈ (summary.absorb state event footprint).1 ↔
      access ∈ footprint ∧ access ∉ summary.footprintAt state event := by
  rw [absorb_fst, Footprint.mem_minus]

/-- Only the entry of the state and event is changed, by merging the footprint into it; an empty
footprint leaves no entry behind. -/
theorem get?_absorb (summary : Summary) (state other : StateId) (event another : Event)
    (footprint : Footprint) :
    (summary.absorb state event footprint).2.get? other another =
      if footprint.isEmpty = false ∧ state = other ∧ event = another then
        some ((summary.footprintAt state event).merge footprint)
      else summary.get? other another := by
  unfold absorb
  split
  · rename_i hempty
    simp [hempty]
  · rename_i hnonempty
    simp only [Bool.not_eq_true] at hnonempty
    simp [get?_insert, hnonempty]

/-- The entries at other states stay as they are. -/
theorem footprintAt_absorb_of_ne {summary : Summary} {state other : StateId} (h : state ≠ other)
    (event another : Event) (footprint : Footprint) :
    (summary.absorb state event footprint).2.footprintAt other another =
      summary.footprintAt other another := by
  rw [footprintAt, get?_absorb, if_neg fun hsame => h hsame.2.1, footprintAt]

/-- What an entry holds afterwards it held before, or it was absorbed into it. -/
theorem mem_footprintAt_of_absorb {summary : Summary} {state other : StateId}
    {event another : Event} {footprint : Footprint} {access : Access}
    (h : access ∈ (summary.absorb state event footprint).2.footprintAt other another) :
    access ∈ summary.footprintAt other another ∨
      state = other ∧ event = another ∧ access ∈ footprint := by
  rw [footprintAt, get?_absorb] at h
  split at h
  · rename_i hsame
    obtain ⟨-, rfl, rfl⟩ := hsame
    rcases Footprint.mem_merge.mp h with hnew | ⟨hold, -⟩
    · exact Or.inr ⟨rfl, rfl, hnew⟩
    · exact Or.inl hold
  · exact Or.inl h

/-- Whatever is absorbed is held by the entry afterwards. -/
theorem mem_footprintAt_absorb_self (summary : Summary) (state : StateId) (event : Event)
    {footprint : Footprint} {access : Access} (h : access ∈ footprint) :
    access ∈ (summary.absorb state event footprint).2.footprintAt state event := by
  have hnonempty : footprint.isEmpty = false := by
    rw [← Bool.not_eq_true, Footprint.isEmpty_iff]
    exact fun hnone => hnone access h
  rw [footprintAt, get?_absorb, if_pos ⟨hnonempty, rfl, rfl⟩]
  exact Footprint.mem_merge.mpr (Or.inl h)

/-- Storing what a key has already changes no map. -/
private theorem insert_eq_self {α β : Type} [Ord α] [Std.TransOrd α] [Std.LawfulEqOrd α]
    {map : Std.ExtTreeMap α β} {key : α} {value : β} (h : map[key]? = some value) :
    map.insert key value = map := by
  refine Std.ExtTreeMap.ext_getElem? fun other => ?_
  rw [Std.ExtTreeMap.getElem?_insert]
  split
  · rename_i hsame
    rw [← Std.LawfulEqOrd.eq_of_compare hsame, h]
  · rfl

/-- Storing the footprint that an entry has already changes nothing. -/
theorem insert_of_get? {summary : Summary} {state : StateId} {event : Event}
    {footprint : Footprint} (h : summary.get? state event = some footprint) :
    summary.insert state event footprint = summary := by
  obtain ⟨events, hevents, hfootprint⟩ := Option.bind_eq_some_iff.mp h
  rw [insert, hevents, Option.getD_some, insert_eq_self hfootprint, insert_eq_self hevents]

/-- Absorbing what an entry holds already brings no news and changes nothing. -/
theorem absorb_of_forall_mem {summary : Summary} {state : StateId} {event : Event}
    {footprint : Footprint} (h : ∀ access ∈ footprint, access ∈ summary.footprintAt state event) :
    summary.absorb state event footprint = (.empty, summary) := by
  have hnews : (summary.absorb state event footprint).1 = .empty := by
    refine Footprint.eq_of_forall_mem_iff fun access => ?_
    rw [mem_absorb_fst]
    simpa using h access
  refine Prod.ext hnews ?_
  unfold absorb
  split
  · rfl
  · rename_i hnonempty
    dsimp only
    rw [Footprint.merge_eq_self h]
    cases hentry : summary.get? state event with
    | none =>
      -- Only the empty footprint is held by an entry that there is not.
      have hempty : footprint.isEmpty = true := Footprint.isEmpty_iff.mpr fun access haccess => by
        simpa [footprintAt, hentry] using h access haccess
      exact absurd hempty hnonempty
    | some recorded =>
      simpa [footprintAt, hentry] using insert_of_get? hentry

/-- A state that holds an access has an entry. -/
theorem containsState_of_mem {summary : Summary} {state : StateId} {event : Event}
    {access : Access} (h : access ∈ summary.footprintAt state event) :
    summary.containsState state = true := by
  cases hentry : summary.entries[state]? with
  | none => simp [footprintAt, get?, hentry] at h
  | some events =>
    exact Std.ExtTreeMap.contains_iff_mem.mpr
      (Std.ExtTreeMap.mem_iff_isSome_getElem?.mpr (Option.isSome_of_eq_some hentry))

/-- Only the state absorbed at gets an entry. -/
theorem containsState_of_absorb {summary : Summary} {state other : StateId} {event : Event}
    {footprint : Footprint}
    (h : (summary.absorb state event footprint).2.containsState other = true) :
    summary.containsState other = true ∨ other = state := by
  unfold absorb at h
  split at h
  · exact Or.inl h
  · simp only [containsState, insert, Std.ExtTreeMap.contains_insert, Bool.or_eq_true,
      beq_iff_eq, Std.compare_eq_iff_eq] at h
    rcases h with hsame | hold
    · exact Or.inr hsame.symm
    · exact Or.inl hold

/-- A state that has an entry keeps one. -/
theorem containsState_absorb {summary : Summary} {state : StateId}
    (h : summary.containsState state = true) (other : StateId) (event : Event)
    (footprint : Footprint) :
    (summary.absorb other event footprint).2.containsState state = true := by
  unfold absorb
  split
  · exact h
  · simp only [containsState, insert, Std.ExtTreeMap.contains_insert, Bool.or_eq_true]
    exact Or.inr h

/-- The events listed at a state are those with an entry there. -/
theorem mem_eventsAt {summary : Summary} {state : StateId} {event : Event} :
    event ∈ summary.eventsAt state ↔ (summary.get? state event).isSome = true := by
  cases hentry : summary.entries[state]? with
  | none => simp [eventsAt, get?, hentry]
  | some events => simp [eventsAt, get?, hentry]

end EventOrder.Summary
