import EventOrder.Trace.Execution

/-!
# Transitions taken

An execution that was started holds a place for its first transition before any decision is made.
This file tells the transitions that were really taken from such a held place, and says what each
change of the log does to them and to the recorded footprints.
-/

namespace EventOrder

namespace Execution

/-- Takes a transition: the first one takes the place that was held for it, any later one is
appended. -/
def take (execution : Execution) (transition : Transition) : Execution :=
  if execution.fresh then execution.settle.replace 0 transition else execution.push transition

/-- How many decisions were made in an execution; the place held for the first one is none. -/
def decisions (execution : Execution) : Nat := if execution.fresh then 0 else execution.trace.size

/-- An execution has a transition for each of its decisions, and holds a place for the first one as
long as it waits for it. -/
def Holds (execution : Execution) : Prop := execution.trace.size = max execution.decisions 1

/-- An execution that was just started holds a place. -/
theorem holds_start (origin : Option TransitionRef) (transition : Transition) :
    ((start origin).push transition).Holds := rfl

/-- Taking a transition records no access. -/
@[simp]
theorem footprints_take (execution : Execution) (transition : Transition) :
    (execution.take transition).footprints = execution.footprints := by
  unfold Execution.take
  split <;> rfl

/-- Taking a transition assigns no position to a decision point. -/
@[simp]
theorem positions_take (execution : Execution) (transition : Transition) :
    (execution.take transition).positions = execution.positions := by
  unfold Execution.take
  split <;> rfl

/-- Taking a transition does not change where the execution comes from. -/
@[simp]
theorem origin_take (execution : Execution) (transition : Transition) :
    (execution.take transition).origin = execution.origin := by
  unfold Execution.take
  split <;> rfl

/-- An execution that takes a transition no longer waits for its first decision. -/
theorem fresh_take (execution : Execution) (transition : Transition) :
    (execution.take transition).fresh = false := by
  unfold Execution.take
  split
  · rfl
  · rename_i hgoes
    simpa [push] using hgoes

/-- An execution that takes a transition has one for each of its decisions. -/
theorem Holds.take {execution : Execution} (h : execution.Holds) (transition : Transition) :
    (execution.take transition).Holds := by
  unfold Holds decisions at h ⊢
  rw [fresh_take]
  unfold Execution.take
  cases hfresh : execution.fresh with
  | true =>
    have hone : execution.trace.size = 1 := by simpa [hfresh] using h
    simp [settle, replace, hone]
  | false => simp [push]

/-- An execution under way in which so many decisions were made. -/
structure Made (execution : Execution) (decisions : Nat) : Prop where
  /-- The execution waits for its first decision until that is made. -/
  fresh : execution.fresh = decide (decisions = 0)
  /-- There is a transition for each decision, and a held place before the first. -/
  size : execution.trace.size = max decisions 1
  /-- The positions of decision points are kept as long as the execution is under way. -/
  mapped : execution.positions.isSome = true
  /-- No access is recorded beyond the decisions. -/
  blank : ∀ position, decisions ≤ position → execution.footprints[position]? = none

/-- An execution that was just started has made no decision. -/
theorem made_start (origin : Option TransitionRef) (transition : Transition) :
    ((start origin).push transition).Made 0 :=
  ⟨rfl, rfl, rfl, fun position _ => by simp [start, push]⟩

/-- The decisions made in an execution are counted right. -/
theorem Made.decisions_eq {execution : Execution} {decisions : Nat} (h : execution.Made decisions) :
    execution.decisions = decisions := by
  have hfresh := h.fresh
  have hsize := h.size
  unfold Execution.decisions
  split <;> rename_i hwaits <;> simp only [hfresh, decide_eq_true_eq] at hwaits <;> omega

/-- An execution holds the decisions made in it. -/
theorem Made.holds {execution : Execution} {decisions : Nat} (h : execution.Made decisions) :
    execution.Holds := by
  rw [Holds, h.decisions_eq]
  exact h.size

/-- Taking a transition is one more decision. -/
theorem Made.take {execution : Execution} {decisions : Nat} (h : execution.Made decisions)
    (transition : Transition) : (execution.take transition).Made (decisions + 1) := by
  have hfresh := h.fresh
  have hsize := h.size
  unfold Execution.take
  split
  · rename_i hwaits
    have hnone : decisions = 0 := by simpa [hwaits] using hfresh
    subst hnone
    exact ⟨by simp [settle, replace], by simpa [settle, replace] using hsize, h.mapped,
      fun position _ => h.blank position (Nat.zero_le _)⟩
  · rename_i hgoes
    have hsome : decisions ≠ 0 := by simpa [hgoes] using hfresh
    refine ⟨by simpa [push] using hgoes, ?_, h.mapped, fun position hposition =>
      h.blank position (by omega)⟩
    simp only [push, Array.size_push, hsize]
    omega

/-- Mapping a decision point makes no decision. -/
theorem Made.mapPoint {execution : Execution} {decisions : Nat} (h : execution.Made decisions)
    (point : PointId) (position : Nat) : (execution.mapPoint point position).Made decisions :=
  ⟨h.fresh, h.size, by simpa [Execution.mapPoint] using h.mapped, h.blank⟩

/-- A decision point stands where it was mapped to. -/
theorem Made.positionOf?_mapPoint {execution : Execution} {decisions : Nat}
    (h : execution.Made decisions) (point : PointId) (position : Nat) :
    (execution.mapPoint point position).positionOf? point = some position := by
  obtain ⟨positions, hpositions⟩ := Option.isSome_iff_exists.mp h.mapped
  simp [positionOf?, Execution.mapPoint, hpositions]

/-- Recording an access at the position of a decision makes no decision. -/
theorem Made.recordAccess {execution : Execution} {decisions : Nat} (h : execution.Made decisions)
    {position : Nat} (hposition : position < decisions) (access : Access) :
    (execution.recordAccess position access).Made decisions := by
  refine ⟨h.fresh, h.size, h.mapped, fun other hother => ?_⟩
  have hne : position ≠ other := by omega
  simpa [Execution.recordAccess, setFootprint, Std.ExtTreeMap.getElem?_insert, hne] using
    h.blank other hother

end Execution

namespace ExecutionLog

/-- The execution of a name after one of the executions was changed. -/
theorem get?_modify (log : ExecutionLog) (id other : ExecutionId) (change : Execution → Execution) :
    (log.modify id change).get? other =
      if id = other then (log.get? other).map change else log.get? other := by
  obtain ⟨number⟩ := id
  obtain ⟨otherNumber⟩ := other
  simp [modify, get?, Array.getElem?_modify]

/-- The execution of a name after one more execution was started. -/
theorem get?_add (log : ExecutionLog) (execution : Execution) (id : ExecutionId) :
    (log.add execution).get? id = if id = log.next then some execution else log.get? id := by
  obtain ⟨number⟩ := id
  simp [add, get?, next, Array.getElem?_push]

/-- No execution has the name that the next one gets. -/
theorem get?_next (log : ExecutionLog) : log.get? log.next = none := by
  simp [get?, next]

/-- The transition taken at a place; there is none where the execution still waits for its first
decision. -/
def taken? (log : ExecutionLog) (place : TransitionRef) : Option Transition :=
  (log.get? place.execution).bind fun execution =>
    if execution.fresh then none else execution.trace[place.position]?

/-- A transition that was taken stands in the log. -/
theorem transition?_of_taken? {log : ExecutionLog} {place : TransitionRef} {transition : Transition}
    (h : log.taken? place = some transition) : log.transition? place = some transition := by
  obtain ⟨execution, hget, htaken⟩ := Option.bind_eq_some_iff.mp h
  split at htaken
  · exact absurd htaken (by simp)
  · simp [transition?, hget, htaken]

/-- A change that keeps the trace of an execution keeps the transitions taken. -/
theorem taken?_modify_of_same (change : Execution → Execution)
    (hfresh : ∀ execution, (change execution).fresh = execution.fresh)
    (htrace : ∀ execution, (change execution).trace = execution.trace)
    (log : ExecutionLog) (id : ExecutionId) (place : TransitionRef) :
    (log.modify id change).taken? place = log.taken? place := by
  unfold taken?
  rw [get?_modify]
  split
  · cases log.get? place.execution <;> simp [hfresh, htrace]
  · rfl

/-- A change that keeps the footprints of an execution keeps the recorded footprints. -/
theorem footprint?_modify_of_same (change : Execution → Execution)
    (hfootprints : ∀ execution, (change execution).footprints = execution.footprints)
    (log : ExecutionLog) (id : ExecutionId) (place : TransitionRef) :
    (log.modify id change).footprint? place = log.footprint? place := by
  unfold footprint?
  rw [get?_modify]
  split
  · cases log.get? place.execution <;> simp [hfootprints]
  · rfl

/-- An execution that waits for its first decision has taken no transition. -/
theorem taken?_add_of_fresh {execution : Execution} (hfresh : execution.fresh = true)
    (log : ExecutionLog) (place : TransitionRef) :
    (log.add execution).taken? place = log.taken? place := by
  unfold taken?
  rw [get?_add]
  split
  · rename_i hnext
    simp [hnext, get?_next, hfresh]
  · rfl

/-- An execution without footprints adds none to the recorded ones. -/
theorem footprint?_add_of_empty {execution : Execution} (hempty : execution.footprints = ∅)
    (log : ExecutionLog) (place : TransitionRef) :
    (log.add execution).footprint? place = log.footprint? place := by
  unfold footprint?
  rw [get?_add]
  split
  · rename_i hnext
    simp [hnext, get?_next, hempty]
  · rfl

/-- An execution that supersedes another and waits for its first decision takes no transition and
undoes none. -/
theorem taken?_supersede {execution : Execution} (hfresh : execution.fresh = true)
    (log : ExecutionLog) (id : ExecutionId) (place : TransitionRef) :
    ((log.modify id Execution.release).add execution).taken? place = log.taken? place := by
  rw [taken?_add_of_fresh hfresh,
    taken?_modify_of_same Execution.release (fun _ => rfl) fun _ => rfl]

/-- If it has no footprints, it records no access and drops none. -/
theorem footprint?_supersede {execution : Execution} (hempty : execution.footprints = ∅)
    (log : ExecutionLog) (id : ExecutionId) (place : TransitionRef) :
    ((log.modify id Execution.release).add execution).footprint? place = log.footprint? place := by
  rw [footprint?_add_of_empty hempty, footprint?_modify_of_same Execution.release fun _ => rfl]

/-- The transitions taken in one execution. -/
theorem taken?_of_get? {log : ExecutionLog} {id : ExecutionId} {execution : Execution}
    (h : log.get? id = some execution) (position : Nat) :
    log.taken? ⟨id, position⟩ = if execution.fresh then none else execution.trace[position]? := by
  simp [taken?, h]

/-- A transition was taken for each decision of an execution under way. -/
theorem taken?_of_made {log : ExecutionLog} {id : ExecutionId} {execution : Execution}
    {decisions position : Nat} (hget : log.get? id = some execution)
    (hmade : execution.Made decisions) (hposition : position < decisions) :
    ∃ transition, log.taken? ⟨id, position⟩ = some transition := by
  have hsize := hmade.size
  have hbound : position < execution.trace.size := by omega
  refine ⟨execution.trace[position], ?_⟩
  rw [taken?_of_get? hget]
  simp [hmade.fresh, show decisions ≠ 0 by omega, hbound]

/-- No transition was taken beyond the decisions of an execution under way. -/
theorem lt_of_taken? {log : ExecutionLog} {id : ExecutionId} {execution : Execution}
    {decisions position : Nat} {transition : Transition} (hget : log.get? id = some execution)
    (hmade : execution.Made decisions) (htaken : log.taken? ⟨id, position⟩ = some transition) :
    position < decisions := by
  have hfresh := hmade.fresh
  have hsize := hmade.size
  rw [taken?_of_get? hget] at htaken
  split at htaken
  · exact absurd htaken (by simp)
  · rename_i hgoes
    have hbound := (Array.getElem?_eq_some_iff.mp htaken).1
    have hsome : decisions ≠ 0 := by simpa [hfresh] using hgoes
    omega

/-- Logs with the same executions under every name are equal. -/
theorem ext_get? {log other : ExecutionLog} (h : ∀ id, log.get? id = other.get? id) :
    log = other := by
  obtain ⟨executions⟩ := log
  obtain ⟨others⟩ := other
  have hsame : executions = others := Array.ext_getElem? fun number => h ⟨number⟩
  rw [hsame]

/-- Two changes of one execution are one change. -/
theorem modify_modify (log : ExecutionLog) (id : ExecutionId)
    (change more : Execution → Execution) :
    (log.modify id change).modify id more =
      log.modify id fun execution => more (change execution) := by
  refine ext_get? fun other => ?_
  simp only [get?_modify]
  split
  · cases log.get? other <;> rfl
  · rfl

/-- Only what a change does to the execution of its name matters. -/
theorem modify_congr {log : ExecutionLog} {id : ExecutionId} {execution : Execution}
    (hget : log.get? id = some execution) (change other : Execution → Execution)
    (hsame : change execution = other execution) : log.modify id change = log.modify id other := by
  refine ext_get? fun another => ?_
  simp only [get?_modify]
  split
  · rename_i hid
    simp [← hid, hget, hsame]
  · rfl

/-- The first decision of an execution takes the place that was held for it. -/
private theorem taken?_modify_settle {log : ExecutionLog} {id : ExecutionId} {execution : Execution}
    (hget : log.get? id = some execution) (hfresh : execution.fresh = true)
    (hsize : execution.trace.size = 1) (transition : Transition) (place : TransitionRef) :
    (log.modify id (·.settle.replace 0 transition)).taken? place =
      if place = ⟨id, 0⟩ then some transition else log.taken? place := by
  obtain ⟨placeId, position⟩ := place
  by_cases hid : id = placeId
  · subst hid
    have hafter : (log.modify id (·.settle.replace 0 transition)).get? id =
        some (execution.settle.replace 0 transition) := by
      simp [get?_modify, hget]
    rw [taken?_of_get? hget, taken?_of_get? hafter]
    cases position with
    | zero => simp [Execution.settle, Execution.replace, hsize]
    | succ position => simp [Execution.settle, Execution.replace, hsize, hfresh]
  · have hne : (⟨placeId, position⟩ : TransitionRef) ≠ ⟨id, 0⟩ := by
      intro heq
      exact hid (congrArg TransitionRef.execution heq).symm
    simp [taken?, get?_modify, hid, hne]

/-- Every later decision takes the place behind the last one. -/
private theorem taken?_modify_push {log : ExecutionLog} {id : ExecutionId} {execution : Execution}
    (hget : log.get? id = some execution) (hfresh : execution.fresh = false)
    (transition : Transition) (place : TransitionRef) :
    (log.modify id (·.push transition)).taken? place =
      if place = ⟨id, execution.trace.size⟩ then some transition else log.taken? place := by
  obtain ⟨placeId, position⟩ := place
  by_cases hid : id = placeId
  · subst hid
    have hafter : (log.modify id (·.push transition)).get? id =
        some (execution.push transition) := by
      simp [get?_modify, hget]
    rw [taken?_of_get? hget, taken?_of_get? hafter]
    simp [Execution.push, hfresh, Array.getElem?_push]
  · have hne : (⟨placeId, position⟩ : TransitionRef) ≠ ⟨id, execution.trace.size⟩ := by
      intro heq
      exact hid (congrArg TransitionRef.execution heq).symm
    simp [taken?, get?_modify, hid, hne]

/-- A decision adds one transition, behind all those taken before in its execution. -/
theorem taken?_modify_take_of_holds {log : ExecutionLog} {id : ExecutionId} {execution : Execution}
    (hget : log.get? id = some execution) (hholds : execution.Holds) (transition : Transition)
    (place : TransitionRef) :
    (log.modify id (·.take transition)).taken? place =
      if place = ⟨id, execution.decisions⟩ then some transition else log.taken? place := by
  unfold Execution.Holds at hholds
  cases hfresh : execution.fresh with
  | true =>
    have hnone : execution.decisions = 0 := by simp [Execution.decisions, hfresh]
    rw [modify_congr hget (·.take transition) (·.settle.replace 0 transition)
      (by simp [Execution.take, hfresh]), hnone]
    exact taken?_modify_settle hget hfresh (by omega) transition place
  | false =>
    have hsize : execution.decisions = execution.trace.size := by simp [Execution.decisions, hfresh]
    rw [modify_congr hget (·.take transition) (·.push transition)
      (by simp [Execution.take, hfresh]), hsize]
    exact taken?_modify_push hget hfresh transition place

/-- A decision of an execution under way adds one transition, behind all those taken before. -/
theorem taken?_modify_take {log : ExecutionLog} {id : ExecutionId} {execution : Execution}
    {decisions : Nat} (hget : log.get? id = some execution) (hmade : execution.Made decisions)
    (transition : Transition) (place : TransitionRef) :
    (log.modify id (·.take transition)).taken? place =
      if place = ⟨id, decisions⟩ then some transition else log.taken? place := by
  rw [taken?_modify_take_of_holds hget hmade.holds, hmade.decisions_eq]

end ExecutionLog

end EventOrder
