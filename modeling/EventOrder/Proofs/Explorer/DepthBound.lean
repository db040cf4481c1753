import EventOrder.Proofs.Explorer.Calls

/-!
# The depth bound

With a greatest depth no execution is let go ahead more often than that. What is left of the depth
is told by the counter of decisions, which a restart and a new round set back. Both make an
execution current that was not current before, so an execution that has used its depth up never gets
any back.
-/

namespace EventOrder.Explorer

variable {σ φ : Type} {explorer later : Explorer σ φ}

/-- The execution that a call lets go ahead: a decision point is advanced while an order is in
force, and the host is told to go on. -/
def goesAhead? (explorer : Explorer σ φ) : Callback σ → Option ExecutionId
  | .choiceAdvanced view point =>
    if explorer.reducing && !explorer.adoptPending.schedule.isEmpty then
      match (explorer.choiceAdvanced view point).outcome with
      | .ok .proceed => some explorer.current
      | _ => none
    else none
  | _ => none

/-- The executions that the calls let go ahead, one after the other. -/
def goneAhead [AccessFilter φ] (explorer : Explorer σ φ) : List (Callback σ) → List ExecutionId
  | [] => []
  | callback :: callbacks =>
    (explorer.goesAhead? callback).toList ++ (explorer.hear callback).1.goneAhead callbacks

/-- How many decisions were made in the current execution: none before its restart is adopted. -/
def decisionsMade (explorer : Explorer σ φ) : Nat :=
  if explorer.pendingSchedule.isSome then 0 else explorer.counter

/-- How often an execution can still go ahead: not any more once a later one is current, what the
decisions leave of the depth while it is current, and the whole depth before. -/
def depthLeft (explorer : Explorer σ φ) (execution : ExecutionId) : Nat :=
  if execution.number < explorer.current.number then 0
  else if execution = explorer.current then explorer.config.maxDepth - explorer.decisionsMade
  else explorer.config.maxDepth

/-- The depth that is left never exceeds the bound. -/
theorem depthLeft_le (explorer : Explorer σ φ) (execution : ExecutionId) :
    explorer.depthLeft execution ≤ explorer.config.maxDepth := by
  unfold depthLeft
  split
  · exact Nat.zero_le _
  · split
    · exact Nat.sub_le _ _
    · exact Nat.le_refl _

/-- Adopting a restart makes no decision. -/
private theorem depthLeft_adoptPending (explorer : Explorer σ φ) :
    explorer.adoptPending.depthLeft = explorer.depthLeft := by
  funext execution
  cases hpending : explorer.pendingSchedule <;>
    simp [depthLeft, decisionsMade, adoptPending, hpending]

/-- The later explorer lets no execution go ahead more often than the earlier one, even when those
listed have gone ahead in between. -/
def Spends (explorer : Explorer σ φ) (gone : List ExecutionId) (later : Explorer σ φ) : Prop :=
  later.config = explorer.config ∧ ∀ execution,
    gone.count execution + later.depthLeft execution ≤ explorer.depthLeft execution

/-- What is spent adds up. -/
private theorem Spends.trans {last : Explorer σ φ} {gone more : List ExecutionId}
    (h : explorer.Spends gone later) (hthen : later.Spends more last) :
    explorer.Spends (gone ++ more) last := by
  refine ⟨hthen.1.trans h.1, fun execution => ?_⟩
  have hfirst := h.2 execution
  have hsecond := hthen.2 execution
  rw [List.count_append]
  omega

/-- Nothing is spent while the same execution is current and its decisions are not taken back. -/
private theorem spends_of_counter (hconfig : later.config = explorer.config)
    (hcurrent : later.current = explorer.current)
    (hdecisions : explorer.decisionsMade ≤ later.decisionsMade) : explorer.Spends [] later := by
  refine ⟨hconfig, fun execution => ?_⟩
  rw [List.count_nil, Nat.zero_add]
  unfold depthLeft
  rw [hconfig, hcurrent]
  split
  · exact Nat.le_refl _
  · split
    · exact Nat.sub_le_sub_left hdecisions _
    · exact Nat.le_refl _

/-- No execution gets any depth back when a later one becomes current. -/
private theorem spends_of_lt (hconfig : later.config = explorer.config)
    (hcurrent : explorer.current.number < later.current.number) : explorer.Spends [] later := by
  refine ⟨hconfig, fun execution => ?_⟩
  rw [List.count_nil, Nat.zero_add]
  by_cases hover : execution.number < later.current.number
  · simp [depthLeft, hover]
  · have hother : execution ≠ explorer.current := by
      rintro rfl
      exact hover hcurrent
    have hwhole : explorer.depthLeft execution = explorer.config.maxDepth := by
      rw [depthLeft, if_neg (by omega), if_neg hother]
    rw [hwhole, ← hconfig]
    exact later.depthLeft_le execution

/-- Nothing is spent by a call that only watches the host. -/
private theorem Spends.of_watches (h : explorer.Watches later) : explorer.Spends [] later :=
  spends_of_counter h.config h.current (by simp [decisionsMade, h.pendingSchedule, h.counter])

/-- Going ahead spends one decision of the current execution. -/
private theorem spends_current (hconfig : later.config = explorer.config)
    (hcurrent : later.current = explorer.current)
    (hdecisions : later.decisionsMade = explorer.decisionsMade + 1)
    (hdepth : explorer.decisionsMade < explorer.config.maxDepth) :
    explorer.Spends [explorer.current] later := by
  refine ⟨hconfig, fun execution => ?_⟩
  unfold depthLeft
  rw [hconfig, hcurrent, List.count_singleton, hdecisions]
  by_cases hsame : explorer.current = execution
  · subst hsame
    simp only [beq_self_eq_true, if_true, Nat.lt_irrefl, if_false]
    omega
  · simp only [beq_eq_false_iff_ne.mpr hsame, Bool.false_eq_true, if_false, Ne.symm hsame,
      Nat.zero_add, Nat.le_refl]

/-- The current execution is older than the next one. -/
private theorem current_lt_next {execution : Execution}
    (hget : explorer.knowledge.log.get? explorer.current = some execution) :
    explorer.current.number < explorer.knowledge.log.next.number :=
  (Array.getElem?_eq_some_iff.mp hget).1

/-- Moving on spends nothing. -/
private theorem MovesOn.spends {view : HostView σ} {requests : List (HostRequest σ)} {flow : Flow}
    (h : explorer.MovesOn view later requests flow) {execution : Execution}
    (hget : explorer.knowledge.log.get? explorer.current = some execution) (visits : Visits) :
    explorer.Spends [] { later with visits, counter := later.counter + 1 } := by
  cases h with
  | finished =>
    refine spends_of_counter rfl rfl ?_
    cases hpending : explorer.pendingSchedule <;> simp [decisionsMade, endExecution, hpending]
  | restarted => exact spends_of_lt rfl (current_lt_next hget)

/-- A decision spends one decision of the current execution when it goes ahead, and nothing
otherwise. -/
private theorem Decides.spends {view : HostView σ} {point : PointId} {event : Event}
    {reply : Reply σ φ} {execution : Execution} {knowledge : Knowledge}
    {requests : List (HostRequest σ)}
    (h : explorer.Decides view point event reply execution knowledge requests)
    (hpending : explorer.pendingSchedule = none) (hbounded : 0 < explorer.config.maxDepth) :
    explorer.Spends (if reply.outcome matches .ok .proceed then [explorer.current] else [])
      reply.explorer := by
  have hlearnt : explorer.Spends [] (explorer.learnt execution view point event knowledge) :=
    spends_of_counter rfl rfl (Nat.le_refl _)
  obtain ⟨account, haccounts⟩ := h.accounts
  obtain ⟨current, hget, -⟩ := haccounts.current
  have hconcludes := h.concludes
  generalize reply.explorer = later, reply.outcome = outcome at hconcludes ⊢
  cases hconcludes with
  | failed => exact hlearnt
  | proceeded hdepth =>
    refine spends_current rfl rfl
      (by simp [decisionsMade, proceeded, learnt, recordedIn, hpending]) ?_
    simpa [atMaxDepth, decisionsMade, learnt, recordedIn, hpending, hbounded] using hdepth
  | moved hmoves visits =>
    have hmoved := hlearnt.trans (hmoves.spends hget visits)
    cases hmoves with
    | finished | restarted => exact hmoved

/-- Advancing a decision point spends one decision of the execution that it lets go ahead. -/
private theorem HasAccount.spends_choiceAdvanced (h : explorer.HasAccount)
    (hbounded : 0 < explorer.config.maxDepth) (view : HostView σ) (point : DecisionPoint) :
    explorer.Spends (explorer.goesAhead? (.choiceAdvanced view point)).toList
      (explorer.choiceAdvanced view point).explorer := by
  obtain ⟨account, haccounts, hannounces⟩ := h
  have hadvances := haccounts.advances hannounces view point
  simp only [goesAhead?]
  generalize explorer.choiceAdvanced view point = reply at hadvances ⊢
  cases hadvances with
  | counted hreducing =>
    simp only [hreducing, Bool.false_and, Bool.false_eq_true, if_false, Option.toList_none]
    exact spends_of_counter rfl rfl (Nat.le_refl _)
  | idle hreducing hpending hempty =>
    have hidle : explorer.adoptPending.schedule.isEmpty = true := by
      simp [adoptPending, hpending, Schedule.isEmpty, hempty]
    simp only [hidle, Bool.not_true, Bool.and_false, Bool.false_eq_true, if_false,
      Option.toList_none]
    exact spends_of_counter rfl rfl (Nat.le_refl _)
  | decided hreducing hsome hdue hdecides =>
    have hgoes : (explorer.reducing && !explorer.adoptPending.schedule.isEmpty) = true := by
      simpa [hreducing, Schedule.isEmpty] using hsome
    have hsame := explorer.adoptPending_same.1
    obtain ⟨-, hcurrent, -⟩ := explorer.adoptPending_keeps
    obtain ⟨hconfig, hspends⟩ :=
      hdecides.spends hannounces.adoptPending.pendingSchedule (hsame ▸ hbounded)
    rw [depthLeft_adoptPending, hcurrent] at hspends
    rw [if_pos hgoes]
    refine ⟨hconfig.trans hsame, fun execution => ?_⟩
    refine Eq.trans_le (congrArg (List.count execution · + _) ?_) (hspends execution)
    split <;> rfl

variable [AccessFilter φ]

/-- Every call spends one decision of the execution that it lets go ahead. -/
private theorem HasAccount.spends_hear (h : explorer.HasAccount)
    (hbounded : 0 < explorer.config.maxDepth) (callback : Callback σ) :
    explorer.Spends (explorer.goesAhead? callback).toList (explorer.hear callback).1 := by
  cases callback with
  | choiceAdvanced view point => exact h.spends_choiceAdvanced hbounded view point
  | pathMatched view point =>
    obtain ⟨account, haccounts, -⟩ := h
    have hends := haccounts.ends view point
    simp only [Explorer.hear, goesAhead?, Option.toList_none]
    generalize (explorer.pathMatched view point).explorer = later,
      (explorer.pathMatched view point).requests = requests,
      (explorer.pathMatched view point).outcome = outcome at hends ⊢
    cases hends with
    | counted | failed => exact spends_of_counter rfl rfl (Nat.le_refl _)
    | @moved knowledge _ _ _ _ _ hgathers haccounts hmoves visits =>
      have hlearnt : explorer.Spends [] { explorer with knowledge } :=
        spends_of_counter rfl rfl (Nat.le_refl _)
      obtain ⟨current, hget, -⟩ := haccounts.current
      exact hlearnt.trans (hmoves.spends hget visits)
  | splitAdvanced =>
    obtain ⟨account, haccounts, -⟩ := h
    obtain ⟨current, hget, -⟩ := haccounts.current
    simp only [Explorer.hear, goesAhead?, Option.toList_none, splitAdvanced_eq]
    split
    · exact spends_of_lt rfl (current_lt_next hget)
    · exact spends_of_counter rfl rfl (Nat.le_refl _)
  | _ => exact .of_watches (explorer.hear_watches rfl rfl)

/-- So do all calls. -/
private theorem HasAccount.spends_goneAhead (h : explorer.HasAccount)
    (hbounded : 0 < explorer.config.maxDepth) (callbacks : List (Callback σ)) :
    explorer.Spends (explorer.goneAhead callbacks) (explorer.after callbacks) := by
  induction callbacks generalizing explorer with
  | nil => exact spends_of_counter rfl rfl (Nat.le_refl _)
  | cons callback callbacks ih =>
    have hfirst := h.spends_hear hbounded callback
    exact hfirst.trans (ih (h.hear callback) (hfirst.1 ▸ hbounded))

/-- Whatever calls a host makes, in any order and even when some of them fail, it is told no more
often than the greatest depth to go on with one execution while an order is in force. -/
theorem HasAccount.count_goneAhead_le (h : explorer.HasAccount)
    (hbounded : 0 < explorer.config.maxDepth) (callbacks : List (Callback σ))
    (execution : ExecutionId) :
    (explorer.goneAhead callbacks).count execution ≤ explorer.config.maxDepth := by
  have hspends := (h.spends_goneAhead hbounded callbacks).2 execution
  exact Nat.le_trans (Nat.le_trans (Nat.le_add_right _ _) hspends) (explorer.depthLeft_le execution)

end EventOrder.Explorer
