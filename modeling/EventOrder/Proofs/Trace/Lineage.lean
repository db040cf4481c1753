import EventOrder.Proofs.Trace.Taken

/-!
# Where executions come from

An execution keeps its origin, and as long as it waits for its first decision it holds one place and
no more. Whatever is recorded of an execution later leaves both as they are.
-/

namespace EventOrder.ExecutionLog

/-- Every execution of the later log stands in the earlier one, with the same origin; one that still
waits for its first decision did so before, with the same trace. -/
def Continues (log later : ExecutionLog) : Prop :=
  ∀ id execution, later.get? id = some execution →
    ∃ earlier, log.get? id = some earlier ∧ execution.origin = earlier.origin ∧
      (execution.fresh = true → earlier.fresh = true ∧ execution.trace = earlier.trace)

/-- Executions that wait for their first decision hold one place for it. -/
def HoldsOne (log : ExecutionLog) : Prop :=
  ∀ id execution, log.get? id = some execution → execution.fresh = true →
    execution.trace.size = 1

variable {log later last : ExecutionLog}

/-- A log continues itself. -/
theorem Continues.refl (log : ExecutionLog) : log.Continues log :=
  fun _ execution hget => ⟨execution, hget, rfl, fun hfresh => ⟨hfresh, rfl⟩⟩

/-- What continues a later log continues the earlier one. -/
theorem Continues.trans (hfirst : log.Continues later) (hthen : later.Continues last) :
    log.Continues last := by
  intro id execution hget
  obtain ⟨between, hbetween, horigin, hwaits⟩ := hthen id execution hget
  obtain ⟨earlier, hearlier, hsame, hwaited⟩ := hfirst id between hbetween
  refine ⟨earlier, hearlier, horigin.trans hsame, fun hfresh => ?_⟩
  obtain ⟨hstill, htrace⟩ := hwaits hfresh
  obtain ⟨hbefore, hkept⟩ := hwaited hstill
  exact ⟨hbefore, htrace.trans hkept⟩

/-- A change of one execution continues the log if it keeps the origin, and the trace of an
execution that it lets wait. -/
theorem continues_modify (log : ExecutionLog) (id : ExecutionId) (change : Execution → Execution)
    (horigin : ∀ execution, (change execution).origin = execution.origin)
    (hwaits : ∀ execution, (change execution).fresh = true →
      execution.fresh = true ∧ (change execution).trace = execution.trace) :
    log.Continues (log.modify id change) := by
  intro other execution hget
  rw [get?_modify] at hget
  split at hget
  · obtain ⟨earlier, hearlier, rfl⟩ := Option.map_eq_some_iff.mp hget
    exact ⟨earlier, hearlier, horigin earlier, hwaits earlier⟩
  · exact Continues.refl log other execution hget

/-- A decision is made in an execution that no longer waits for it. -/
theorem continues_modify_take (log : ExecutionLog) (id : ExecutionId) (transition : Transition) :
    log.Continues (log.modify id (·.take transition)) := by
  refine continues_modify log id _ (fun execution => ?_) fun execution hfresh => ?_
  · exact execution.origin_take transition
  · unfold Execution.take at hfresh
    split at hfresh
    · exact absurd hfresh Bool.false_ne_true
    · rename_i hgoes
      exact absurd hfresh hgoes

/-- As long as executions wait they hold one place. -/
theorem Continues.holdsOne (h : log.Continues later) (hlog : log.HoldsOne) : later.HoldsOne := by
  intro id execution hget hfresh
  obtain ⟨earlier, hearlier, -, hwaits⟩ := h id execution hget
  obtain ⟨hbefore, htrace⟩ := hwaits hfresh
  rw [htrace]
  exact hlog id earlier hearlier hbefore

/-- One more execution that holds one place leaves this so. -/
theorem HoldsOne.add (h : log.HoldsOne) {execution : Execution}
    (hsize : execution.trace.size = 1) : (log.add execution).HoldsOne := by
  intro id other hget hfresh
  rw [get?_add] at hget
  split at hget
  · exact Option.some.inj hget ▸ hsize
  · exact h id other hget hfresh

/-- Behind the first place of an execution there are only transitions taken. -/
theorem HoldsOne.taken?_of_transition? (h : log.HoldsOne) {id : ExecutionId} {position : Nat}
    {transition : Transition} (hplace : log.transition? ⟨id, position + 1⟩ = some transition) :
    log.taken? ⟨id, position + 1⟩ = some transition ∧
      log.taken? ⟨id, position⟩ = log.transition? ⟨id, position⟩ := by
  obtain ⟨execution, hget, hat⟩ := Option.bind_eq_some_iff.mp hplace
  have hgoes : execution.fresh = false := by
    rw [← Bool.not_eq_true]
    intro hwaits
    have hsize := h id execution hget hwaits
    have hbound := (Array.getElem?_eq_some_iff.mp hat).1
    simp only at hbound
    omega
  constructor
  · rw [taken?_of_get? hget, hgoes]
    exact hat
  · rw [taken?_of_get? hget, hgoes, transition?, hget]
    rfl

end EventOrder.ExecutionLog
