import EventOrder.Machine.Instruction
import EventOrder.Proofs.Explorer.Conclusion

/-!
# Observing an event

While the event of the last decision runs, its accesses are recorded at the place of that decision,
as far as the filter tracks them. When the host enters a state again, the place is recorded as one
that leads into it. The execution under way stays the same throughout.
-/

namespace EventOrder

/-- Asks a filter for accesses in turn: those that it tracks, and the filter to ask next. -/
def AccessFilter.sift {φ : Type} [AccessFilter φ] : φ → List Access → List Access × φ
  | filter, [] => ([], filter)
  | filter, access :: accesses =>
    let (tracked, filter) := consider filter access
    let (rest, filter) := sift filter accesses
    (if tracked then access :: rest else rest, filter)

/-- A filter tracks some of the accesses that it is asked for. -/
theorem AccessFilter.sift_sublist {φ : Type} [AccessFilter φ] (filter : φ)
    (accesses : List Access) : (sift filter accesses).1.Sublist accesses := by
  induction accesses generalizing filter with
  | nil => exact List.Sublist.slnil
  | cons access accesses ih =>
    simp only [sift]
    split
    · exact (ih _).cons_cons access
    · exact (ih _).cons access

/-- A filter without patterns that has dropped nothing tracks every access. -/
theorem PatternFilter.sift_of_patterns_empty {filter : PatternFilter}
    (hpatterns : filter.patterns = .empty) (hdropped : filter.dropped = ∅)
    (accesses : List Access) :
    (AccessFilter.sift filter accesses).1 = accesses ∧
      (AccessFilter.sift filter accesses).2.patterns = .empty ∧
      (AccessFilter.sift filter accesses).2.dropped = ∅ := by
  induction accesses generalizing filter with
  | nil => exact ⟨rfl, hpatterns, hdropped⟩
  | cons access accesses ih =>
    have htracks : (AccessFilter.consider filter access).1 = true ∧
        (AccessFilter.consider filter access).2.patterns = .empty ∧
        (AccessFilter.consider filter access).2.dropped = ∅ := by
      simp only [AccessFilter.consider, consider, hpatterns, hdropped,
        Std.ExtTreeSet.contains_empty, Bool.false_eq_true, if_false,
        PatternLists.excludesWritten, PatternLists.excludes, PatternLists.empty, List.any_nil,
        Bool.and_false, Bool.or_false, track]
      split <;> simp [hpatterns, hdropped, PatternLists.empty]
    obtain ⟨htracked, hpatterns, hdropped⟩ := htracks
    obtain ⟨hall, hrest⟩ := ih hpatterns hdropped
    exact ⟨by simp only [AccessFilter.sift, htracked, if_true, hall], hrest⟩

/-- Records accesses at a position. -/
def Execution.recordAll (position : Nat) (accesses : List Access) (execution : Execution) :
    Execution :=
  accesses.foldl (·.recordAccess position ·) execution

namespace Execution

/-- Recording accesses at the position of a decision makes no decision. -/
theorem Made.recordAll {execution : Execution} {decisions position : Nat}
    (h : execution.Made decisions) (hposition : position < decisions) (accesses : List Access) :
    (execution.recordAll position accesses).Made decisions := by
  induction accesses generalizing execution with
  | nil => exact h
  | cons access accesses ih => exact ih (h.recordAccess hposition access)

/-- Recording accesses changes neither the transitions nor the positions of decision points, nor
where the execution comes from. -/
theorem recordAll_same (execution : Execution) (position : Nat) (accesses : List Access) :
    (execution.recordAll position accesses).fresh = execution.fresh ∧
      (execution.recordAll position accesses).trace = execution.trace ∧
      (execution.recordAll position accesses).positions = execution.positions ∧
      (execution.recordAll position accesses).origin = execution.origin := by
  induction accesses generalizing execution with
  | nil => exact ⟨rfl, rfl, rfl, rfl⟩
  | cons access accesses ih => exact ih (execution.recordAccess position access)

/-- The footprint at a position after accesses were recorded at one. -/
theorem getElem?_footprints_recordAll (execution : Execution) (position other : Nat)
    (accesses : List Access) :
    (execution.recordAll position accesses).footprints[other]? =
      if other = position ∧ accesses ≠ [] then
        some (accesses.foldl Footprint.record (execution.footprintAt position))
      else execution.footprints[other]? := by
  induction accesses generalizing execution with
  | nil => simp [recordAll]
  | cons access accesses ih =>
    change ((execution.recordAccess position access).recordAll position accesses).footprints[other]?
      = _
    rw [ih]
    by_cases hposition : other = position
    · subst hposition
      cases accesses with
      | nil => simp [recordAccess, setFootprint]
      | cons another accesses => simp [recordAccess, setFootprint, footprintAt]
    · have hne : position ≠ other := fun heq => hposition heq.symm
      simp [recordAccess, setFootprint, hposition, hne, Std.ExtTreeMap.getElem?_insert]

end Execution

namespace Explorer

variable {σ φ : Type} [AccessFilter φ] {explorer : Explorer σ φ} {events : List Event}
  {decisions : Nat}

/-- The explorer after accesses of the event of the last decision were observed. -/
def observed (explorer : Explorer σ φ) (accesses : List Access) : Explorer σ φ :=
  { explorer with
    filter := (AccessFilter.sift explorer.filter accesses).2
    knowledge :=
      { explorer.knowledge with
        log := explorer.knowledge.log.modify explorer.current
          (Execution.recordAll (explorer.counter - 1)
            (AccessFilter.sift explorer.filter accesses).1) } }

/-- Observing no access changes nothing. -/
private theorem observed_nil (explorer : Explorer σ φ) : explorer.observed [] = explorer := by
  have hlog : explorer.knowledge.log.modify explorer.current
      (Execution.recordAll (explorer.counter - 1) []) = explorer.knowledge.log := by
    refine ExecutionLog.ext_get? fun id => ?_
    rw [ExecutionLog.get?_modify]
    split
    · cases explorer.knowledge.log.get? id <;> rfl
    · rfl
  simp only [observed, AccessFilter.sift, hlog]

/-- An instruction that accesses nothing is not recorded. -/
private theorem accessObserved_none (explorer : Explorer σ φ) (active : ActivePoint) :
    explorer.accessObserved active none = explorer := by
  simp [accessObserved]

/-- Accesses under the point of the last decision, or under a secondary decision inside it, are
recorded at the place of the last decision. -/
theorem foldl_accessObserved {point : PointId} (hreducing : explorer.reducing = true)
    (hended : explorer.ended = false) (hcounter : 0 < explorer.counter)
    (hposition : ∃ execution, explorer.knowledge.log.get? explorer.current = some execution ∧
      execution.positionOf? point = some (explorer.counter - 1))
    (observations : List Observation)
    (hactive : ∀ observation ∈ observations,
      observation.active = .event point ∨ observation.active = .nested point) :
    observations.foldl
        (fun explorer observation => explorer.accessObserved observation.active observation.access)
        explorer =
      explorer.observed (observations.filterMap (·.access)) := by
  induction observations generalizing explorer with
  | nil => exact explorer.observed_nil.symm
  | cons observation observations ih =>
    have hrest (other : Observation) (hother : other ∈ observations) :=
      hactive other (List.mem_cons_of_mem _ hother)
    cases haccess : observation.access with
    | none =>
      rw [List.foldl_cons, haccess, explorer.accessObserved_none,
        ih hreducing hended hcounter hposition hrest, List.filterMap_cons_none haccess]
    | some access =>
      obtain ⟨execution, hget, hmapped⟩ := hposition
      have hrecorded : explorer.accessPosition? execution observation.active =
          some (explorer.counter - 1) := by
        rcases hactive observation List.mem_cons_self with hevent | hnested
        · simp [accessPosition?, hevent]
        · simp [accessPosition?, hnested, hmapped]
      have hstep : explorer.accessObserved observation.active (some access) =
          explorer.observed [access] := by
        simp only [accessObserved, hreducing, hended, hget, hrecorded, Bool.not_true, Bool.or_self,
          Nat.pos_iff_ne_zero.mp hcounter, observed, AccessFilter.sift]
        cases htracked : (AccessFilter.consider explorer.filter access).1
        · simpa [observed, AccessFilter.sift] using congrArg
            (fun after : Explorer σ φ =>
              ({ after with filter := (AccessFilter.consider explorer.filter access).2 } :
                Explorer σ φ)) explorer.observed_nil.symm
        · simp only [modifyCurrent, if_true, decide_false]
          rfl
      have hstill : ∃ later,
          (explorer.observed [access]).knowledge.log.get? explorer.current = some later ∧
            later.positionOf? point = some (explorer.counter - 1) := by
        refine ⟨execution.recordAll (explorer.counter - 1)
          (AccessFilter.sift explorer.filter [access]).1, ?_, ?_⟩
        · simp [observed, ExecutionLog.get?_modify, hget]
        · unfold Execution.positionOf?
          rw [(execution.recordAll_same _ _).2.2.1]
          exact hmapped
      rw [List.foldl_cons, haccess, hstep, List.filterMap_cons_some haccess]
      rw [ih]
      · simp only [observed, AccessFilter.sift, ExecutionLog.modify_modify]
        cases (AccessFilter.consider explorer.filter access).1 <;> rfl
      · exact hreducing
      · exact hended
      · exact hcounter
      · exact hstill
      · exact hrest

/-- Observing accesses takes no transition. -/
theorem taken?_observed (explorer : Explorer σ φ) (accesses : List Access)
    (place : TransitionRef) :
    (explorer.observed accesses).knowledge.log.taken? place =
      explorer.knowledge.log.taken? place :=
  ExecutionLog.taken?_modify_of_same _ (fun execution => (execution.recordAll_same _ _).1)
    (fun execution => (execution.recordAll_same _ _).2.1) _ _ _

/-- The accesses that the filter tracks are recorded at the place of the last decision. -/
theorem footprint?_observed {execution : Execution}
    (hget : explorer.knowledge.log.get? explorer.current = some execution)
    (accesses : List Access) (place : TransitionRef) :
    (explorer.observed accesses).knowledge.log.footprint? place =
      if place = ⟨explorer.current, explorer.counter - 1⟩ ∧
          (AccessFilter.sift explorer.filter accesses).1 ≠ [] then
        some ((AccessFilter.sift explorer.filter accesses).1.foldl Footprint.record
          (execution.footprintAt (explorer.counter - 1)))
      else explorer.knowledge.log.footprint? place := by
  obtain ⟨id, position⟩ := place
  simp only [observed, ExecutionLog.footprint?, ExecutionLog.get?_modify, TransitionRef.mk.injEq]
  by_cases hid : explorer.current = id
  · subst hid
    simp [hget, Execution.getElem?_footprints_recordAll]
  · have hne : ¬id = explorer.current := fun heq => hid heq.symm
    simp [hid, hne]

/-- While its accesses are observed the same execution is under way. -/
theorem Underway.observed (h : explorer.Underway events decisions)
    (hcounter : 0 < explorer.counter) (hdecisions : explorer.counter ≤ decisions)
    (accesses : List Access) : (explorer.observed accesses).Underway events decisions := by
  refine
    { reducing := h.reducing, offersSeen := h.offersSeen, pendingSchedule := h.pendingSchedule,
      ended := h.ended, lastEvent := h.lastEvent, order := h.order, nonempty := h.nonempty,
      made := ?_, latest := ?_, coherent := ⟨?_, ?_, h.coherent.event_of_summary⟩,
      snapshot_of_taken := ?_ }
  · obtain ⟨execution, hget, hmade⟩ := h.made
    have hposition : explorer.counter - 1 < decisions := by omega
    refine ⟨_, ?_, hmade.recordAll hposition (AccessFilter.sift explorer.filter accesses).1⟩
    simp [Explorer.observed, ExecutionLog.get?_modify, hget]
  · simpa [Explorer.observed, ExecutionLog.next, ExecutionLog.modify] using h.latest
  · intro state place hplace
    rw [taken?_observed]
    exact h.coherent.taken_of_predecessor state place hplace
  · intro place transition htaken
    rw [taken?_observed] at htaken
    exact h.coherent.event_of_taken place transition htaken
  · intro place transition htaken
    rw [taken?_observed] at htaken
    exact h.snapshot_of_taken place transition htaken

/-- Observing an access asks the filter, and records it at most in the execution under way once that
has made a decision. -/
theorem accessObserved_cases (explorer : Explorer σ φ) (active : ActivePoint)
    (access : Option Access) :
    ∃ filter, explorer.accessObserved active access = { explorer with filter } ∨
      explorer.ended = false ∧ explorer.counter ≠ 0 ∧ ∃ position recorded,
        explorer.accessObserved active access =
          ({ explorer with filter } : Explorer σ φ).modifyCurrent
            (·.recordAccess position recorded) := by
  unfold accessObserved
  split
  · exact ⟨explorer.filter, Or.inl rfl⟩
  · rename_i hunderway
    simp only [Bool.or_eq_true, Bool.not_eq_true', decide_eq_true_eq, not_or, Bool.not_eq_true]
      at hunderway
    split
    · split
      · exact ⟨explorer.filter, Or.inl rfl⟩
      · rename_i recorded _ _ _ position _
        dsimp only
        split
        · exact ⟨_, Or.inr ⟨hunderway.1.2, hunderway.2, position, recorded, rfl⟩⟩
        · exact ⟨_, Or.inl rfl⟩
    · exact ⟨explorer.filter, Or.inl rfl⟩

omit [AccessFilter φ] in
/-- Entering a state may record the last place as one that leads into it, and nothing else. -/
theorem mem_predecessors_stateEntered {state other : StateId} {place : TransitionRef}
    (hplace : place ∈ (explorer.stateEntered state).knowledge.predecessors.of other) :
    place ∈ explorer.knowledge.predecessors.of other ∨
      other = state ∧ 1 < explorer.counter ∧ place = ⟨explorer.current, explorer.counter - 1⟩ := by
  unfold stateEntered at hplace
  split at hplace
  · exact Or.inl hplace
  · simp only at hplace
    split at hplace
    · rename_i hmet
      simp only [Bool.and_eq_true, Bool.not_eq_true'] at hmet
      rcases Predecessors.mem_of_record.mp hplace with hold | ⟨hstate, hnew⟩
      · exact Or.inl hold
      · exact Or.inr ⟨hstate, of_decide_eq_true hmet.1.1.2, hnew⟩
    · exact Or.inl hplace

omit [AccessFilter φ] in
/-- Entering a state keeps all places that lead into a state. -/
theorem mem_predecessors_stateEntered_of_mem {state other : StateId} {place : TransitionRef}
    (hplace : place ∈ explorer.knowledge.predecessors.of other) :
    place ∈ (explorer.stateEntered state).knowledge.predecessors.of other := by
  unfold stateEntered
  split
  · exact hplace
  · simp only
    split
    · exact Predecessors.mem_of_record.mpr (Or.inl hplace)
    · exact hplace

omit [AccessFilter φ] in
/-- The place first recorded as leading into a state stays the first when a state is entered. -/
theorem head?_predecessors_stateEntered (explorer : Explorer σ φ) (state : StateId)
    {other : StateId} {first : TransitionRef}
    (h : (explorer.knowledge.predecessors.of other).head? = some first) :
    ((explorer.stateEntered state).knowledge.predecessors.of other).head? = some first := by
  unfold stateEntered
  split
  · exact h
  · simp only
    split
    · exact Predecessors.head?_of_record h
    · exact h

omit [AccessFilter φ] in
/-- What entering a state leaves as it is, and the visits it leads to. -/
theorem stateEntered_eq (hreducing : explorer.reducing = true) (state : StateId) :
    ∃ predecessors, explorer.stateEntered state =
      { explorer with
        knowledge := { explorer.knowledge with predecessors }
        visits := explorer.visits.enter state } := by
  have hreduces : ¬(!explorer.reducing) = true := by simp [hreducing]
  simp only [stateEntered, if_neg hreduces]
  split
  · exact ⟨explorer.knowledge.predecessors.record state _, rfl⟩
  · exact ⟨explorer.knowledge.predecessors, rfl⟩

omit [AccessFilter φ] in
/-- Whether or not there is anything to reduce, entering a state changes only the visits and the
places known to lead into states. -/
theorem stateEntered_same (explorer : Explorer σ φ) (state : StateId) :
    ∃ predecessors visits, explorer.stateEntered state =
      { explorer with knowledge := { explorer.knowledge with predecessors }, visits } := by
  by_cases hreducing : explorer.reducing = true
  · obtain ⟨predecessors, hentered⟩ := stateEntered_eq hreducing state
    exact ⟨predecessors, _, hentered⟩
  · have hsame : explorer.stateEntered state = explorer := by simp [stateEntered, hreducing]
    exact ⟨explorer.knowledge.predecessors, explorer.visits, hsame⟩

omit [AccessFilter φ] in
/-- After a state is entered the same execution is under way. -/
theorem Underway.stateEntered (h : explorer.Underway events decisions)
    (hdecisions : explorer.counter ≤ decisions) (state : StateId) :
    (explorer.stateEntered state).Underway events decisions := by
  have hlead (other : StateId) (place : TransitionRef)
      (hplace : place ∈ (explorer.stateEntered state).knowledge.predecessors.of other) :
      ∃ transition, explorer.knowledge.log.taken? place = some transition := by
    rcases mem_predecessors_stateEntered hplace with hold | ⟨-, hcounter, rfl⟩
    · exact h.coherent.taken_of_predecessor other place hold
    · exact h.taken_of_lt (by omega)
  obtain ⟨predecessors, hentered⟩ := explorer.stateEntered_eq h.reducing state
  rw [hentered] at hlead ⊢
  exact
    { reducing := h.reducing, offersSeen := h.offersSeen, pendingSchedule := h.pendingSchedule,
      ended := h.ended, lastEvent := h.lastEvent, order := h.order, nonempty := h.nonempty,
      made := h.made, latest := h.latest,
      coherent := ⟨hlead, h.coherent.event_of_taken, h.coherent.event_of_summary⟩,
      snapshot_of_taken := h.snapshot_of_taken }

omit [AccessFilter φ] in
/-- A decision point registered while an execution is under way offers the order in force, with the
event that is due pre-selected. -/
theorem Underway.pointRegistered_eq (h : explorer.Underway events decisions)
    (point : DecisionPoint) :
    ∃ event ∈ events, explorer.schedule.eventAt? explorer.counter = some event ∧
      explorer.pointRegistered point =
        (explorer, (point.offer explorer.schedule.order).preselect event) := by
  obtain ⟨event, hevent, hdue⟩ := h.eventAt?_isSome explorer.counter
  have hnonempty : explorer.schedule.isEmpty = false := by
    cases horder : explorer.schedule.order with
    | nil => simp [Schedule.eventAt?, horder] at hdue
    | cons first rest => simp [Schedule.isEmpty, horder]
  refine ⟨event, hevent, hdue, ?_⟩
  simp [pointRegistered, h.offersSeen, h.reducing, h.ended, adoptOffer, hnonempty, hdue]

end Explorer

end EventOrder
