import EventOrder.Proofs.Explorer.Replies

/-!
# What becomes of backtrack points

A backtrack point that was admitted waits until it is taken off the backlog. Then it is announced to
the host, and the next decision starts its execution. Two calls may come between and give the point
up: one that starts a new round, which drops whatever execution is current, and the end of a path at
which another restart is announced instead. Nothing else loses a point, in whatever order the calls
come.
-/

namespace EventOrder.Explorer

variable {σ φ : Type} {explorer : Explorer σ φ} {account : Account}
  {announced : Option BacktrackPoint}

/-- The point at which the last restart was announced, if no decision has adopted it. -/
def announced? (explorer : Explorer σ φ) : Option BacktrackPoint := do
  let order ← explorer.pendingSchedule
  let execution ← explorer.knowledge.log.get? explorer.current
  let held ← execution.trace[0]?
  let conflict ← execution.origin
  return ⟨held.state, order, conflict⟩

/-- An execution in the history follows the order of the point, and it was called for by the
conflict of the point, at a place of the state of the point. -/
def HasStarted (explorer : Explorer σ φ) (point : BacktrackPoint) : Prop :=
  (∃ start ∈ explorer.history, start.schedule = point.schedule ∧
    explorer.knowledge.log.origin? start.execution = some point.conflict) ∧
  (explorer.knowledge.log.transition? point.conflict).map (·.state) = some point.state

instance (point : BacktrackPoint) : Decidable (explorer.HasStarted point) :=
  inferInstanceAs (Decidable (_ ∧ _))

/-- The explorer after all of the calls. -/
def after [AccessFilter φ] (explorer : Explorer σ φ) (callbacks : List (Callback σ)) :
    Explorer σ φ :=
  callbacks.foldl (fun explorer callback => (explorer.hear callback).1) explorer

/-- The announced point that a call gives up: a new round drops it, and so does the end of a path at
which another restart is announced. -/
def givenUp? (explorer : Explorer σ φ) : Callback σ → Option BacktrackPoint
  | .splitAdvanced => if explorer.startsRound .splitAdvanced then explorer.announced? else none
  | .pathMatched view point =>
    match (explorer.pathMatched view point).outcome with
    | .ok .restarted => explorer.announced?
    | _ => none
  | _ => none

/-- A point can still be found: it waits, its execution was started, a restart at it is announced,
or it is among those given up. -/
def Finds (explorer : Explorer σ φ) (givenUp : List BacktrackPoint) (point : BacktrackPoint) :
    Prop :=
  point ∈ explorer.knowledge.backlog.pendingAt point.state ∨ explorer.HasStarted point ∨
    explorer.announced? = some point ∨ point ∈ givenUp

instance (givenUp : List BacktrackPoint) (point : BacktrackPoint) :
    Decidable (explorer.Finds givenUp point) :=
  inferInstanceAs (Decidable (_ ∨ _))

/-- The announced points that the calls give up. -/
def givenUp [AccessFilter φ] (explorer : Explorer σ φ) : List (Callback σ) → List BacktrackPoint
  | [] => []
  | callback :: callbacks =>
    (explorer.givenUp? callback).toList ++ (explorer.hear callback).1.givenUp callbacks

/-- The announced point can be read off the explorer. -/
theorem Announces.announced?_eq (h : explorer.Announces announced) :
    explorer.announced? = announced := by
  cases h with
  | nothing hpending => simp [announced?, hpending]
  | restart _ _ _ hpending hget _ hheld hstate horigin =>
    simp [announced?, hpending, hget, hheld, hstate, horigin]

/-- A point that is started has an execution in the history. -/
theorem Accounts.hasStarted (h : explorer.Accounts account) {point : BacktrackPoint}
    (hpoint : point ∈ account.started) : explorer.HasStarted point := by
  have hrestart : (point.schedule, point.conflict) ∈ explorer.restarts := by
    rw [h.restarts]
    exact List.mem_map.mpr ⟨point, hpoint, rfl⟩
  obtain ⟨start, hstart, heq⟩ := List.mem_filterMap.mp hrestart
  obtain ⟨conflict, horigin, hpair⟩ := Option.map_eq_some_iff.mp heq
  obtain ⟨hschedule, rfl⟩ := Prod.mk.inj hpair
  obtain ⟨-, transition, htaken, hstate⟩ :=
    h.founded point (by simp [Account.points, Account.taken, hpoint])
  refine ⟨⟨start, Array.mem_toList_iff.mp hstart, hschedule, horigin⟩, ?_⟩
  rw [ExecutionLog.transition?_of_taken? htaken, ← hstate]
  rfl

/-- Every call keeps an account right, which has given up what the call gives up. -/
theorem Accounts.hear [AccessFilter φ] (h : explorer.Accounts account)
    (hannounces : explorer.Announces account.announced) (callback : Callback σ) :
    ∃ started, (explorer.hear callback).1.ContinuesFrom account started
      (explorer.givenUp? callback).toList := by
  cases callback with
  | searchStarted | stateRestored | searchFinished =>
    exact ⟨[], account, h, hannounces, .refl account⟩
  | pointRegistered point =>
    obtain ⟨haccounts, hstill⟩ := h.pointRegistered hannounces point
    exact ⟨[], account, haccounts, hstill, .refl account⟩
  | stateEntered state | stateLeft state =>
    obtain ⟨haccounts, hstill⟩ := h.stateEntered hannounces state
    exact ⟨[], account, haccounts, hstill, .refl account⟩
  | accessObserved active access =>
    obtain ⟨haccounts, hstill⟩ := h.accessObserved hannounces active access
    exact ⟨[], account, haccounts, hstill, .refl account⟩
  | choiceAdvanced view point =>
    exact ⟨account.announced.toList, h.choiceAdvanced hannounces view point⟩
  | pathMatched view point =>
    have hmatched := h.pathMatched hannounces view point
    rw [← hannounces.announced?_eq] at hmatched
    exact ⟨[], hmatched⟩
  | splitAdvanced =>
    have hpassed := h.splitAdvanced hannounces
    rw [← hannounces.announced?_eq] at hpassed
    refine ⟨[], ?_⟩
    simp only [givenUp?, startsRound, Explorer.hear]
    split at hpassed <;> rename_i hstarts <;> simpa [hstarts] using hpassed

/-- So do all calls. -/
theorem Accounts.after [AccessFilter φ] (h : explorer.Accounts account)
    (hannounces : explorer.Announces account.announced) (callbacks : List (Callback σ)) :
    ∃ started, (explorer.after callbacks).ContinuesFrom account started
      (explorer.givenUp callbacks) := by
  induction callbacks generalizing explorer account with
  | nil => exact ⟨[], account, h, hannounces, .refl account⟩
  | cons callback callbacks ih =>
    obtain ⟨started, between, haccounts, hbetween, hleads⟩ := h.hear hannounces callback
    obtain ⟨startedThen, later, hlater, hlast, hthen⟩ := ih haccounts hbetween
    exact ⟨started ++ startedThen, later, hlater, hlast, hleads.trans hthen⟩

/-- Nothing was admitted before the first call. -/
theorem accounts_start (config : ExploreConfig) (filter : φ) :
    (start config filter : Explorer σ φ).Accounts ⟨[], none, [], []⟩ ∧
      (start config filter : Explorer σ φ).Announces none := by
  refine ⟨⟨steady_start config filter, ⟨[], Backlog.ledger_empty, List.Perm.refl []⟩, ?_, rfl⟩,
    .nothing rfl fun execution hget _ => ?_⟩
  · simp [Account.points, Account.taken]
  · rw [← Option.some.inj (show some (placeholder none .split ⟨0⟩) = some execution from hget)]
    rfl

/-- Calls that follow one another give up what each of them gives up. -/
theorem givenUp_append [AccessFilter φ] (explorer : Explorer σ φ)
    (callbacks more : List (Callback σ)) :
    explorer.givenUp (callbacks ++ more) =
      explorer.givenUp callbacks ++ (explorer.after callbacks).givenUp more := by
  induction callbacks generalizing explorer with
  | nil => rfl
  | cons callback callbacks ih =>
    rw [List.cons_append, givenUp, givenUp, ih, List.append_assoc]
    rfl

/-- Every point of an account can be found. -/
theorem Accounts.finds (h : explorer.Accounts account)
    (hannounces : explorer.Announces account.announced) {point : BacktrackPoint}
    (hpoint : point ∈ account.points) : explorer.Finds account.givenUp point := by
  obtain ⟨taken, hledger, -⟩ := h.ledger
  simp only [Account.points, Account.taken, List.mem_append, Option.mem_toList] at hpoint
  rcases hpoint with ((hstarted | hannounced) | hgivenUp) | hwaiting
  · exact Or.inr (Or.inl (h.hasStarted hstarted))
  · exact Or.inr (Or.inr (Or.inl (hannounces.announced?_eq.trans hannounced)))
  · exact Or.inr (Or.inr (Or.inr hgivenUp))
  · exact Or.inl (hledger.mem_waiting_iff.mp hwaiting)

/-- What was admitted for a state and an event is a point of the account. -/
theorem Accounts.exists_point_of_isConstructed (h : explorer.Accounts account) {state : StateId}
    {event : Event} (hadmitted : explorer.knowledge.backlog.isConstructed state event = true) :
    ∃ point ∈ account.points, point.state = state ∧ point.first? = some event := by
  obtain ⟨taken, hledger, hperm⟩ := h.ledger
  have hfiring := (hledger.constructed ⟨state, event⟩).mp
    (Std.ExtTreeSet.contains_iff_mem.mp hadmitted)
  obtain ⟨point, hpoint, heq⟩ := List.mem_map.mp hfiring
  obtain ⟨hstate, hevent⟩ := Firing.mk.inj heq
  have hmem : point ∈ account.points := (hperm.append_right account.waiting).mem_iff.mp hpoint
  refine ⟨point, hmem, hstate, ?_⟩
  cases horder : point.schedule with
  | nil => exact absurd horder (h.founded point hmem).1
  | cons first rest => simpa [BacktrackPoint.first?, horder] using hevent

/-- The points of an account are counted one by one. -/
theorem Accounts.created_eq (h : explorer.Accounts account) :
    explorer.knowledge.backlog.created = explorer.knowledge.backlog.size +
      explorer.restarts.length + account.announced.toList.length + account.givenUp.length := by
  obtain ⟨taken, hledger, hperm⟩ := h.ledger
  have hlength := hperm.length_eq
  simp only [Account.taken, List.length_append] at hlength
  rw [hledger.created, hledger.size_eq, hlength, h.restarts, List.length_map]
  omega

/-- Whatever calls a host makes, in any order: every backtrack point that was admitted waits, or its
execution was started, or it is announced and the next decision starts it, or it was given up after
it was announced, by a new round or by another restart at the end of a path. Counted together, these
are all the points that were admitted. -/
theorem admitted_points_are_found [AccessFilter φ] (config : ExploreConfig) (filter : φ)
    (before later : List (Callback σ)) :
    let first := (start config filter : Explorer σ φ)
    let explorer := first.after (before ++ later)
    let givenUp := first.givenUp (before ++ later)
    (∀ state, ∀ point ∈ (first.after before).knowledge.backlog.pendingAt state,
      explorer.Finds givenUp point) ∧
    (∀ state event, explorer.knowledge.backlog.isConstructed state event = true →
      ∃ point, point.state = state ∧ point.first? = some event ∧ explorer.Finds givenUp point) ∧
    (∀ point, explorer.announced? = some point → ∀ view choice,
      (explorer.choiceAdvanced view choice).explorer.HasStarted point) ∧
    explorer.knowledge.backlog.created = explorer.knowledge.backlog.size +
      explorer.restarts.length + explorer.announced?.toList.length + givenUp.length := by
  intro first explorer givenUp
  obtain ⟨hstart, hnothing⟩ := accounts_start (σ := σ) config filter
  obtain ⟨started, between, hbefore, hbetween, hleads⟩ := hstart.after hnothing before
  obtain ⟨startedThen, last, hlater, hlast, hthen⟩ := hbefore.after hbetween later
  have hafter : (first.after before).after later = explorer :=
    (List.foldl_append ..).symm
  rw [hafter] at hlater hlast
  have hgivenUp : last.givenUp = givenUp := by
    rw [hthen.givenUp_eq, hleads.givenUp_eq]
    exact (givenUp_append first before later).symm
  have hfinds (point : BacktrackPoint) (hpoint : point ∈ last.points) :
      explorer.Finds givenUp point := hgivenUp ▸ hlater.finds hlast hpoint
  refine ⟨fun state point hpoint => ?_, fun state event hadmitted => ?_,
    fun point hpoint view choice => ?_, ?_⟩
  · obtain ⟨taken, hledger, -⟩ := hbefore.ledger
    rw [hledger.pendingAt] at hpoint
    exact hfinds point (hthen.mem_points point
      (List.mem_append_right _ (List.mem_of_mem_filter hpoint)))
  · obtain ⟨point, hpoint, hstate, hevent⟩ := hlater.exists_point_of_isConstructed hadmitted
    exact ⟨point, hstate, hevent, hfinds point hpoint⟩
  · have hannounced : last.announced = some point := hlast.announced?_eq.symm.trans hpoint
    obtain ⟨next, hnext, -, hstarts⟩ := hlater.choiceAdvanced hlast view choice
    refine hnext.hasStarted ?_
    rw [hstarts.started_eq, hannounced]
    simp
  · rw [hlater.created_eq, hlast.announced?_eq, hgivenUp]

/-- Three events write one field, one after another, and the host ends the path after them. -/
def threeWrites : List (Callback Unit) :=
  let written : Access := ⟨.write, "light", ⟨0⟩⟩
  let point (number : Nat) : DecisionPoint := .start ⟨number⟩ [⟨0⟩, ⟨1⟩, ⟨2⟩]
  let decision (number : Nat) : List (Callback Unit) :=
    [.choiceAdvanced ⟨⟨number⟩, ()⟩ (point number),
      .accessObserved (.event ⟨number⟩) (some written), .stateEntered ⟨number + 1⟩]
  .pointRegistered (point 1) :: decision 1 ++ decision 2 ++ decision 3 ++
    [.pathMatched ⟨⟨4⟩, ()⟩ (point 4)]

/-- The backtrack point announced at the end of this path is nowhere to be found, and not all points
are counted, after the split point was passed twice, or after the host ended the new path before its
first decision. -/
theorem announced_point_lost_threeWrites :
    let first : Explorer Unit TrackAll := start {} TrackAll.mk
    let point : BacktrackPoint := ⟨⟨2⟩, [⟨2⟩, ⟨0⟩, ⟨1⟩], ⟨⟨0⟩, 1⟩⟩
    (first.after threeWrites).announced? = some point ∧
      ∀ calls ∈ [[.splitAdvanced, .splitAdvanced], [.pathMatched ⟨⟨2⟩, ()⟩ (.start ⟨4⟩ [])]],
        let explorer := first.after (threeWrites ++ calls)
        explorer.knowledge.backlog.isConstructed ⟨2⟩ ⟨2⟩ = true ∧ ¬explorer.Finds [] point ∧
          explorer.knowledge.backlog.created ≠ explorer.knowledge.backlog.size +
            explorer.restarts.length + explorer.announced?.toList.length := by
  decide +kernel

end EventOrder.Explorer
