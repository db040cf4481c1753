import EventOrder.Proofs.Explorer.Fairness
import EventOrder.Proofs.Explorer.Protocol

/-!
# Searches that only count

Reduction is off when the configuration says so, or from the first decision point on when that
offers nothing. No call turns it on again. Each call has its own guard, and behind it nothing is
left of the call but the count of a transition: the host goes on as it is, with its decision points
as they were and with nothing to do, and all that was learnt, kept and planned stays.
-/

namespace EventOrder

/-- The events that a decision point offers, when one is opened. -/
def Callback.offer? {σ : Type} : Callback σ → Option (List Event)
  | pointRegistered point => some point.offered
  | _ => none

/-- A decision point is opened with what it offers. -/
private theorem Callback.opensPoint_eq {σ : Type} (callback : Callback σ) :
    callback.opensPoint = callback.offer?.isSome := by
  cases callback <;> rfl

/-- The decision point that a call is about. -/
def Callback.point? {σ : Type} : Callback σ → Option DecisionPoint
  | pointRegistered point | choiceAdvanced _ point | pathMatched _ point => some point
  | _ => none

namespace Explorer

variable {σ φ : Type} {explorer later : Explorer σ φ}

/-- The decision point that a call is about, as the explorer leaves it. -/
def pointAfter? (explorer : Explorer σ φ) : Callback σ → Option DecisionPoint
  | .pointRegistered point => some (explorer.pointRegistered point).2
  | .choiceAdvanced view point => some (explorer.choiceAdvanced view point).point
  | .pathMatched view point => some (explorer.pathMatched view point).point
  | _ => none

/-- A call that the host makes as if there were no explorer. -/
structure Passes [AccessFilter φ] (explorer : Explorer σ φ) (callback : Callback σ) : Prop where
  /-- Asked how to go on, the explorer lets the host go on. -/
  answer : callback.asksToGoOn = true → (explorer.hear callback).2 = .ok (some .proceed)
  /-- The decision point stays as it is. -/
  point : explorer.pointAfter? callback = callback.point?
  /-- The host has nothing to do. -/
  requests : explorer.requests callback = []

/-- The explorer when nothing has happened but that a decision point was opened, if one was, and
that so many decisions were counted. -/
def counting (explorer : Explorer σ φ) (opened : Bool) (decisions : Nat) : Explorer σ φ :=
  { explorer with
    offersSeen := explorer.offersSeen || opened
    statistics :=
      { explorer.statistics with transitions := explorer.statistics.transitions + decisions } }

/-- Whether there is anything to reduce is as settled as it was, and settled alike. -/
structure SameMode (explorer later : Explorer σ φ) : Prop where
  /-- Reduction is on when it was. -/
  reducing : later.reducing = explorer.reducing
  /-- No decision point was opened. -/
  offersSeen : later.offersSeen = explorer.offersSeen

/-- Moving on settles nothing. -/
private theorem sameMode_moveOn (explorer : Explorer σ φ) (view : HostView σ)
    (point : DecisionPoint) : explorer.SameMode (explorer.moveOn view point).explorer := by
  unfold moveOn
  split
  · exact ⟨rfl, rfl⟩
  · dsimp only
    split <;> exact ⟨rfl, rfl⟩

/-- Concluding a decision settles nothing. -/
private theorem sameMode_conclude (explorer : Explorer σ φ) (ends : Bool) (view : HostView σ)
    (point : DecisionPoint) (event : Event) :
    explorer.SameMode (explorer.conclude ends view point event).explorer := by
  cases ends with
  | false => exact ⟨rfl, rfl⟩
  | true =>
    obtain ⟨hreducing, hseen⟩ := explorer.sameMode_moveOn view point
    simp only [conclude, if_true]
    split
    · exact ⟨hreducing, hseen⟩
    · exact ⟨hreducing, hseen⟩

/-- Advancing a decision point settles nothing. -/
private theorem sameMode_choiceAdvanced (explorer : Explorer σ φ) (view : HostView σ)
    (point : DecisionPoint) : explorer.SameMode (explorer.choiceAdvanced view point).explorer := by
  have hadopted : explorer.SameMode explorer.adoptPending := by
    unfold adoptPending
    split <;> exact ⟨rfl, rfl⟩
  cases hreducing : explorer.reducing with
  | false =>
    rw [choiceAdvanced_of_not_reducing hreducing]
    exact ⟨rfl, rfl⟩
  | true =>
    cases hdue : explorer.adoptPending.schedule.eventAt? explorer.adoptPending.counter with
    | none =>
      rw [choiceAdvanced_of_not_due hreducing hdue]
      exact hadopted
    | some event =>
      rw [choiceAdvanced_of_due hreducing hdue]
      have hsteps := explorer.adoptPending.decide_steps view (point.force event) event
      generalize explorer.adoptPending.decide view (point.force event) event = reply at hsteps ⊢
      cases hsteps with
      | failed => exact ⟨hadopted.reducing, hadopted.offersSeen⟩
      | concluded knowledge history snapshots requests ends =>
        obtain ⟨hsame, hseen⟩ := sameMode_conclude
          { explorer.adoptPending with knowledge, history, snapshots } ends view (point.force event)
          event
        exact ⟨hsame.trans hadopted.reducing, hseen.trans hadopted.offersSeen⟩

/-- The end of a path settles nothing. -/
private theorem sameMode_pathMatched (explorer : Explorer σ φ) (view : HostView σ)
    (point : DecisionPoint) : explorer.SameMode (explorer.pathMatched view point).explorer := by
  have hsteps := explorer.pathMatched_steps view point
  generalize explorer.pathMatched view point = reply at hsteps ⊢
  cases hsteps with
  | counted | failed => exact ⟨rfl, rfl⟩
  | stuck knowledge | moved knowledge =>
    obtain ⟨hreducing, hseen⟩ := sameMode_moveOn { explorer with knowledge } view point
    exact ⟨hreducing, hseen⟩

/-- As long as no decision point was opened while reduction was on, no event was tracked. -/
def Untracked (explorer : Explorer σ φ) : Prop :=
  explorer.offersSeen = false ∨ explorer.reducing = false → explorer.statistics.distinct = ∅

/-- No event is tracked before the first call. -/
private theorem untracked_start (config : ExploreConfig) (filter : φ) :
    (start config filter : Explorer σ φ).Untracked := fun _ => rfl

/-- A decision is made only when a decision point was opened. -/
private theorem HasAccount.offersSeen_of_due (h : explorer.HasAccount)
    (hsome : explorer.adoptPending.schedule.order ≠ []) : explorer.offersSeen = true := by
  obtain ⟨account, haccounts, hannounces⟩ := h
  rw [← Bool.not_eq_false]
  intro hunseen
  have hpending : explorer.pendingSchedule = none := by
    rw [← Option.not_isSome_iff_eq_none]
    intro hpending
    exact absurd (hannounces.offersSeen_of_pending hpending) (by simp [hunseen])
  have hnothing : explorer.adoptPending = explorer := by simp [Explorer.adoptPending, hpending]
  rw [hnothing] at hsome
  exact hsome (haccounts.unseen hunseen).1

section Hearing

variable [AccessFilter φ] {callback : Callback σ} {callbacks : List (Callback σ)}

/-- Only the first decision point that is opened settles anything: whether there is anything to
reduce. -/
private theorem hear_settles (explorer : Explorer σ φ) (callback : Callback σ) :
    (explorer.hear callback).1.offersSeen = (explorer.offersSeen || callback.opensPoint) ∧
      (explorer.hear callback).1.reducing =
        (explorer.reducing && (explorer.offersSeen || callback.offer? != some [])) := by
  have hsettled {later : Explorer σ φ} (hsame : explorer.SameMode later)
      (hopens : callback.opensPoint = false) (hoffers : callback.offer? = none) :
      later.offersSeen = (explorer.offersSeen || callback.opensPoint) ∧ later.reducing =
        (explorer.reducing && (explorer.offersSeen || callback.offer? != some [])) := by
    simp [hsame.reducing, hsame.offersSeen, hopens, hoffers]
  cases callback with
  | pointRegistered point =>
    obtain ⟨hseen, hreducing⟩ := explorer.pointRegistered_settles point
    refine ⟨by simp [Explorer.hear, hseen, Callback.opensPoint], ?_⟩
    simp only [Explorer.hear, hreducing, Callback.offer?]
    cases point.offered <;> simp
  | choiceAdvanced view point =>
    exact hsettled (explorer.sameMode_choiceAdvanced view point) rfl rfl
  | pathMatched view point => exact hsettled (explorer.sameMode_pathMatched view point) rfl rfl
  | accessObserved active access =>
    refine hsettled ?_ rfl rfl
    obtain ⟨filter, hobserved | ⟨-, -, position, recorded, hobserved⟩⟩ :=
      explorer.accessObserved_cases active access
    · simp only [Explorer.hear, hobserved]
      exact ⟨rfl, rfl⟩
    · simp only [Explorer.hear, hobserved]
      exact ⟨rfl, rfl⟩
  | stateEntered state | stateLeft state =>
    refine hsettled ?_ rfl rfl
    obtain ⟨predecessors, visits, hentered⟩ := explorer.stateEntered_same state
    simp only [Explorer.hear, hentered]
    exact ⟨rfl, rfl⟩
  | splitAdvanced =>
    refine hsettled ?_ rfl rfl
    simp only [Explorer.hear, splitAdvanced]
    split
    · exact ⟨rfl, rfl⟩
    · split <;> exact ⟨rfl, rfl⟩
  | searchStarted | stateRestored | searchFinished => exact hsettled ⟨rfl, rfl⟩ rfl rfl

/-- So reduction is off after calls when it was before, or when the first of the decision points
opened offers nothing and none was opened before. -/
private theorem reducing_after (explorer : Explorer σ φ) (callbacks : List (Callback σ)) :
    (explorer.after callbacks).reducing = (explorer.reducing &&
      (explorer.offersSeen || callbacks.findSome? Callback.offer? != some [])) := by
  induction callbacks generalizing explorer with
  | nil => simp [Explorer.after]
  | cons callback callbacks ih =>
    obtain ⟨hseen, hreducing⟩ := explorer.hear_settles callback
    change ((explorer.hear callback).1.after callbacks).reducing = _
    rw [ih, hseen, hreducing]
    cases hoffer : callback.offer? with
    | none =>
      have hfresh : ((none : Option (List Event)) != some []) = true := rfl
      simp [callback.opensPoint_eq, hoffer, hfresh]
    | some offered =>
      rw [List.findSome?_cons, hoffer, callback.opensPoint_eq, hoffer]
      simp

/-- While reduction is off a call is let pass, and only a decision is counted. -/
private theorem hear_of_not_reducing (hreducing : explorer.reducing = false)
    (callback : Callback σ) :
    (explorer.hear callback).1 =
        explorer.counting callback.opensPoint callback.decides.toNat ∧
      explorer.Passes callback := by
  have hnothing : explorer.counting false 0 = explorer := by simp [counting]
  cases callback with
  | pointRegistered point =>
    have hregistered : explorer.pointRegistered point = (explorer.counting true 0, point) := by
      cases hseen : explorer.offersSeen with
      | false => simp [Explorer.pointRegistered, counting, hreducing, hseen]
      | true =>
        have hsame : explorer.counting true 0 = explorer := by
          rw [counting, Bool.or_true, ← hseen]
          rfl
        simp [Explorer.pointRegistered, hreducing, hseen, hsame]
    exact ⟨congrArg Prod.fst hregistered, by simp [Callback.asksToGoOn],
      by simp [pointAfter?, hregistered, Callback.point?], rfl⟩
  | choiceAdvanced view point =>
    have hadvanced := choiceAdvanced_of_not_reducing hreducing view point
    refine ⟨?_, fun _ => ?_, ?_, ?_⟩
    · simp [Explorer.hear, hadvanced, counting, Statistics.count, Callback.opensPoint,
        Callback.decides]
    · simp [Explorer.hear, hadvanced, Except.map]
    · simp [pointAfter?, hadvanced, Callback.point?]
    · simp [requests, hadvanced]
  | pathMatched view point =>
    have hmatched : explorer.pathMatched view point = ⟨explorer, point, [], .ok .proceed⟩ := by
      simp [Explorer.pathMatched, hreducing]
    refine ⟨?_, fun _ => ?_, ?_, ?_⟩
    · simp [Explorer.hear, hmatched, counting, Callback.opensPoint, Callback.decides]
    · simp [Explorer.hear, hmatched, Except.map]
    · simp [pointAfter?, hmatched, Callback.point?]
    · simp [requests, hmatched]
  | accessObserved active access =>
    have hobserved : explorer.accessObserved active access = explorer := by
      simp [Explorer.accessObserved, hreducing]
    exact ⟨hobserved.trans hnothing.symm, by simp [Callback.asksToGoOn], rfl, rfl⟩
  | stateEntered state | stateLeft state =>
    have hentered : explorer.stateEntered state = explorer := by
      simp [Explorer.stateEntered, hreducing]
    exact ⟨hentered.trans hnothing.symm, by simp [Callback.asksToGoOn], rfl, rfl⟩
  | splitAdvanced =>
    have hsplit : explorer.splitAdvanced = explorer := by simp [Explorer.splitAdvanced, hreducing]
    exact ⟨hsplit.trans hnothing.symm, by simp [Callback.asksToGoOn], rfl, rfl⟩
  | searchStarted | stateRestored | searchFinished =>
    exact ⟨hnothing.symm, by simp [Callback.asksToGoOn], rfl, rfl⟩

/-- While reduction is off nothing changes but the count. -/
private theorem after_of_not_reducing (hreducing : explorer.reducing = false)
    (callbacks : List (Callback σ)) :
    explorer.after callbacks =
      explorer.counting (callbacks.any Callback.opensPoint)
        (callbacks.countP Callback.decides) := by
  induction callbacks generalizing explorer with
  | nil => simp [Explorer.after, counting]
  | cons callback callbacks ih =>
    obtain ⟨hlater, -⟩ := hear_of_not_reducing hreducing callback
    have hstill : (explorer.hear callback).1.reducing = false := by
      rw [hlater]
      exact hreducing
    change (explorer.hear callback).1.after callbacks = _
    rw [ih hstill, hlater]
    cases hdecides : callback.decides <;>
      simp [counting, hdecides, Bool.or_assoc, Nat.add_assoc, Nat.add_comm 1]

/-- No call tracks an event before a decision point was opened, or while reduction is off. -/
private theorem HasAccount.untracked_hear (h : explorer.HasAccount)
    (huntracked : explorer.Untracked) (callback : Callback σ) :
    (explorer.hear callback).1.Untracked := by
  obtain ⟨hseen, hreducing⟩ := explorer.hear_settles callback
  have hbefore (hoff : (explorer.hear callback).1.offersSeen = false ∨
      (explorer.hear callback).1.reducing = false) :
      explorer.offersSeen = false ∨ explorer.reducing = false := by
    rw [hseen, hreducing] at hoff
    cases hopened : explorer.offersSeen with
    | false => exact Or.inl rfl
    | true => simpa [hopened] using hoff
  have hsame (hstatistics : (explorer.hear callback).1.statistics.distinct =
      explorer.statistics.distinct) : (explorer.hear callback).1.Untracked :=
    fun hoff => hstatistics.trans (huntracked (hbefore hoff))
  cases callback with
  | choiceAdvanced view point =>
    obtain ⟨account, haccounts, hannounces⟩ := id h
    have hadvances := haccounts.advances hannounces view point
    simp only [Explorer.hear] at hbefore hsame ⊢
    generalize explorer.choiceAdvanced view point = reply at hadvances hbefore hsame ⊢
    cases hadvances with
    | counted | idle => exact hsame rfl
    | decided hreduces hsome =>
      intro hoff
      have hopened := h.offersSeen_of_due hsome
      simpa [hopened, hreduces] using hbefore hoff
  | pathMatched view point => exact hsame (congrArg _ (explorer.pathMatched_same view point).2)
  | splitAdvanced =>
    apply hsame
    simp only [Explorer.hear, splitAdvanced_eq]
    split <;> rfl
  | _ => exact hsame (congrArg _ (explorer.hear_watches rfl rfl).statistics)

/-- So no event is tracked by any calls while reduction is off. -/
private theorem HasAccount.untracked_after (h : explorer.HasAccount)
    (huntracked : explorer.Untracked) (callbacks : List (Callback σ)) :
    (explorer.after callbacks).Untracked := by
  induction callbacks generalizing explorer with
  | nil => exact huntracked
  | cons callback callbacks ih => exact ih (h.hear callback) (h.untracked_hear huntracked callback)

/-- Whatever calls a host makes, reduction is off exactly when the configuration turned it off or
the first decision point that was opened offered nothing. Once it is off every further call is let
pass: the host goes on whenever it asks, its decision points stay as they are, and it has nothing to
do. Nothing of the explorer changes but that each decision adds one to the count of transitions, and
that a decision point was opened; so reduction stays off. No event has been tracked, so no
transition counts as unique. -/
theorem unreduced_search_only_counts (config : ExploreConfig) (filter : φ)
    (callbacks : List (Callback σ)) :
    let explorer := (start config filter : Explorer σ φ).after callbacks
    (explorer.reducing = false ↔
      config.stateReduction = false ∨ callbacks.findSome? Callback.offer? = some []) ∧
    (explorer.reducing = false → ∀ more,
      let later := explorer.after more
      later = { explorer with
        offersSeen := explorer.offersSeen || more.any Callback.opensPoint
        statistics := { explorer.statistics with
          transitions := explorer.statistics.transitions + more.countP Callback.decides } } ∧
      later.statistics.uniqueTransitions = 0 ∧ ∀ callback, later.Passes callback) := by
  intro explorer
  have hstart : explorer.reducing = (config.stateReduction &&
      (false || callbacks.findSome? Callback.offer? != some [])) := reducing_after _ callbacks
  constructor
  · rw [hstart]
    cases config.stateReduction <;> simp
  · intro hreducing more later
    have hlater : later = explorer.counting _ _ := after_of_not_reducing hreducing more
    have hnone : explorer.statistics.distinct = ∅ :=
      (hasAccount_start config filter).untracked_after (untracked_start config filter) callbacks
        (Or.inr hreducing)
    refine ⟨hlater, ?_, fun callback => (hear_of_not_reducing ?_ callback).2⟩
    · rw [hlater]
      simp [counting, Statistics.uniqueTransitions, hnone]
    · rw [hlater]
      exact hreducing

end Hearing

/-- A first decision point that offers nothing turns reduction off, though the next one offers two
events: both are advanced without an event being put in force, and two transitions are counted. -/
theorem unreduced_search_only_counts_noOffer :
    let view : HostView Unit := ⟨⟨1⟩, ()⟩
    let offered : DecisionPoint := .start ⟨2⟩ [⟨0⟩, ⟨1⟩]
    let first : Explorer Unit TrackAll := start {} TrackAll.mk
    let explorer := first.after [.pointRegistered (.start ⟨1⟩ [])]
    let later := explorer.after
      [.choiceAdvanced view (.start ⟨1⟩ []), .pointRegistered offered, .choiceAdvanced view offered]
    explorer.reducing = false ∧ later.reducing = false ∧ later.statistics.transitions = 2 ∧
      later.statistics.uniqueTransitions = 0 ∧ later.Passes (.pathMatched view offered) := by
  intro view offered first explorer later
  obtain ⟨hoff, hcounts⟩ :=
    unreduced_search_only_counts {} TrackAll.mk [(.pointRegistered (.start ⟨1⟩ []) : Callback Unit)]
  have hreducing : explorer.reducing = false := hoff.mpr (Or.inr rfl)
  obtain ⟨hlater, hunique, hpasses⟩ := hcounts hreducing
    [.choiceAdvanced view (.start ⟨1⟩ []), .pointRegistered offered, .choiceAdvanced view offered]
  have htwo : later.statistics.transitions = 2 := by
    rw [show later = _ from hlater]
    rfl
  exact ⟨hreducing, (congrArg (·.reducing) hlater).trans hreducing, htwo, hunique, hpasses _⟩

end Explorer

end EventOrder
