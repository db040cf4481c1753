import EventOrder.Proofs.Explorer.Whereabouts

/-!
# What holds whatever calls are made

Most calls only watch the host: they ask for no decision and start no round, and leave the execution
under way where it is. The others have the few outcomes listed before. This file takes both to whole
sequences of calls: there is an account of the backtrack points after any of them, and what each
call keeps that succeeds is kept by all of them.
-/

namespace EventOrder.Explorer

variable {σ φ : Type} {explorer : Explorer σ φ} {account : Account}

/-- All points that were admitted are accounted for, and so is the restart that is announced. -/
def HasAccount (explorer : Explorer σ φ) : Prop :=
  ∃ account, explorer.Accounts account ∧ explorer.Announces account.announced

/-- An explorer has an account before its first call. -/
theorem hasAccount_start (config : ExploreConfig) (filter : φ) :
    (start config filter : Explorer σ φ).HasAccount :=
  ⟨_, accounts_start config filter⟩

/-- Every call keeps an account. -/
theorem HasAccount.hear [AccessFilter φ] (h : explorer.HasAccount) (callback : Callback σ) :
    (explorer.hear callback).1.HasAccount := by
  obtain ⟨account, haccounts, hannounces⟩ := h
  obtain ⟨started, later, hlater, hstill, -⟩ := haccounts.hear hannounces callback
  exact ⟨later, hlater, hstill⟩

/-- So do all calls. -/
theorem HasAccount.after [AccessFilter φ] (h : explorer.HasAccount)
    (callbacks : List (Callback σ)) : (explorer.after callbacks).HasAccount := by
  induction callbacks generalizing explorer with
  | nil => exact h
  | cons callback callbacks ih => exact ih (h.hear callback)

/-- Adopting a restart changes nothing of what the explorer knows and keeps. -/
theorem adoptPending_keeps (explorer : Explorer σ φ) :
    explorer.adoptPending.knowledge = explorer.knowledge ∧
      explorer.adoptPending.current = explorer.current ∧
      explorer.adoptPending.snapshots = explorer.snapshots ∧
      explorer.adoptPending.history = explorer.history := by
  unfold adoptPending
  split <;> exact ⟨rfl, rfl, rfl, rfl⟩

/-- A restart is announced only at the end of an execution, while there is something to reduce. -/
theorem HasAccount.ended_of_pending (h : explorer.HasAccount)
    (hpending : explorer.pendingSchedule.isSome) :
    explorer.ended = true ∧ explorer.reducing = true := by
  obtain ⟨account, -, hannounces⟩ := h
  generalize account.announced = announced at hannounces
  cases hannounces with
  | nothing hnone => simp [hnone] at hpending
  | restart hreducing _ hended => exact ⟨hended, hreducing⟩

/-- What a call leaves alone that asks for no decision and starts no round. -/
structure Watches (explorer later : Explorer σ φ) : Prop where
  /-- How to explore is settled. -/
  config : later.config = explorer.config
  /-- No snapshot is kept. -/
  snapshots : later.snapshots = explorer.snapshots
  /-- No restart is announced or adopted. -/
  pendingSchedule : later.pendingSchedule = explorer.pendingSchedule
  /-- No decision is counted. -/
  counter : later.counter = explorer.counter
  /-- The same execution is current. -/
  current : later.current = explorer.current
  /-- It has ended if it had before. -/
  ended : later.ended = explorer.ended
  /-- No execution enters the history. -/
  history : later.history = explorer.history
  /-- No transition is counted. -/
  statistics : later.statistics = explorer.statistics
  /-- At most an access is recorded in the current execution. -/
  log : later.knowledge.log = explorer.knowledge.log ∨ ∃ position access,
    later.knowledge.log =
      explorer.knowledge.log.modify explorer.current (·.recordAccess position access)

variable [AccessFilter φ] {callbacks : List (Callback σ)}

/-- A call that asks for no decision and starts no round only watches the host. -/
theorem hear_watches (explorer : Explorer σ φ) {callback : Callback σ}
    (hasks : callback.asksToGoOn = false) (hround : explorer.startsRound callback = false) :
    explorer.Watches (explorer.hear callback).1 := by
  cases callback with
  | searchStarted | stateRestored | searchFinished =>
    exact ⟨rfl, rfl, rfl, rfl, rfl, rfl, rfl, rfl, Or.inl rfl⟩
  | pointRegistered point =>
    obtain ⟨reducing, offersSeen, schedule, lastEvent, events, hregistered⟩ :=
      explorer.pointRegistered_same point
    simp only [Explorer.hear, hregistered]
    exact ⟨rfl, rfl, rfl, rfl, rfl, rfl, rfl, rfl, Or.inl rfl⟩
  | stateEntered state | stateLeft state =>
    obtain ⟨predecessors, visits, hentered⟩ := explorer.stateEntered_same state
    simp only [Explorer.hear, hentered]
    exact ⟨rfl, rfl, rfl, rfl, rfl, rfl, rfl, rfl, Or.inl rfl⟩
  | accessObserved active access =>
    obtain ⟨filter, hunchanged | ⟨-, -, position, recorded, hrecorded⟩⟩ :=
      explorer.accessObserved_cases active access
    · simp only [Explorer.hear, hunchanged]
      exact ⟨rfl, rfl, rfl, rfl, rfl, rfl, rfl, rfl, Or.inl rfl⟩
    · simp only [Explorer.hear, hrecorded]
      exact ⟨rfl, rfl, rfl, rfl, rfl, rfl, rfl, rfl, Or.inr ⟨position, recorded, rfl⟩⟩
  | choiceAdvanced | pathMatched => exact absurd hasks (by simp [Callback.asksToGoOn])
  | splitAdvanced =>
    have harms : (explorer.reducing && explorer.splitPassed) = false := hround
    simp only [Explorer.hear, splitAdvanced_eq, harms, Bool.false_eq_true, if_false]
    exact ⟨rfl, rfl, rfl, rfl, rfl, rfl, rfl, rfl, Or.inl rfl⟩

/-- Whether no call is answered with an error. -/
def succeeds (explorer : Explorer σ φ) : List (Callback σ) → Bool
  | [] => true
  | callback :: callbacks =>
    (explorer.hear callback).2.isOk && (explorer.hear callback).1.succeeds callbacks

/-- Calls that follow one another succeed when each of them does. -/
theorem succeeds_append (explorer : Explorer σ φ) (callbacks more : List (Callback σ)) :
    explorer.succeeds (callbacks ++ more) =
      (explorer.succeeds callbacks && (explorer.after callbacks).succeeds more) := by
  induction callbacks generalizing explorer with
  | nil => rfl
  | cons callback callbacks ih =>
    rw [List.cons_append, succeeds, succeeds, ih, Bool.and_assoc]
    rfl

/-- What each call keeps that is not answered with an error holds after all of them. -/
theorem after_induction {motive : Explorer σ φ → Prop}
    (hstep : ∀ explorer callback, motive explorer →
      (explorer.hear callback).2.isOk = true → motive (explorer.hear callback).1)
    (h : motive explorer) (hok : explorer.succeeds callbacks = true) :
    motive (explorer.after callbacks) := by
  induction callbacks generalizing explorer with
  | nil => exact h
  | cons callback callbacks ih =>
    obtain ⟨hfirst, hrest⟩ := Bool.and_eq_true_iff.mp hok
    exact ih (hstep explorer callback h hfirst) hrest

end EventOrder.Explorer
