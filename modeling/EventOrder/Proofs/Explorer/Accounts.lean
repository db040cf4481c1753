import EventOrder.Proofs.Explorer.Counting
import EventOrder.Proofs.Explorer.Steady

/-!
# An account of the backtrack points

Every backtrack point that was admitted is accounted for: it waits, or it was taken off the backlog
and then started, announced or given up. Each call of a host moves points from one of these lists to
another one, and no point leaves the account.
-/

namespace EventOrder

/-- Where the backtrack points admitted so far have gone. -/
structure Account where
  /-- The points whose executions were started. -/
  started : List BacktrackPoint
  /-- The point at which a restart was announced that no decision has adopted. -/
  announced : Option BacktrackPoint
  /-- The points that were given up once they were announced. -/
  givenUp : List BacktrackPoint
  /-- The points that wait. -/
  waiting : List BacktrackPoint

/-- The points of an account that were taken off the backlog. -/
def Account.taken (account : Account) : List BacktrackPoint :=
  account.started ++ account.announced.toList ++ account.givenUp

/-- All the points of an account. -/
def Account.points (account : Account) : List BacktrackPoint := account.taken ++ account.waiting

/-- The account after the announced point was given up. -/
def Account.drop (account : Account) : Account :=
  { account with announced := none, givenUp := account.givenUp ++ account.announced.toList }

/-- Giving up the announced point moves it among the points taken. -/
theorem Account.taken_drop_perm (account : Account) : account.drop.taken.Perm account.taken := by
  rw [List.perm_iff_count]
  intro point
  simp only [taken, drop, List.count_append, Option.toList_none, List.count_nil]
  omega

/-- No point is missing after the announced one was given up. -/
theorem Account.mem_points_drop_iff {account : Account} {point : BacktrackPoint} :
    point ∈ account.drop.points ↔ point ∈ account.points := by
  rw [points, points, List.mem_append, List.mem_append, account.taken_drop_perm.mem_iff]
  rfl

/-- The later account still has all points of the earlier one, and has started and given up those
listed besides. -/
structure Account.Leads (account : Account) (started dropped : List BacktrackPoint)
    (later : Account) : Prop where
  /-- Further points were started. -/
  started_eq : later.started = account.started ++ started
  /-- Further points were given up. -/
  givenUp_eq : later.givenUp = account.givenUp ++ dropped
  /-- No point is missing. -/
  mem_points : ∀ point ∈ account.points, point ∈ later.points

/-- An account leads to itself when nothing is started or given up. -/
theorem Account.Leads.refl (account : Account) : account.Leads [] [] account :=
  ⟨by simp, by simp, fun _ hpoint => hpoint⟩

/-- What is started and given up adds up. -/
theorem Account.Leads.trans {account later last : Account}
    {started dropped startedThen droppedThen : List BacktrackPoint}
    (hfirst : account.Leads started dropped later)
    (hthen : later.Leads startedThen droppedThen last) :
    account.Leads (started ++ startedThen) (dropped ++ droppedThen) last where
  started_eq := by rw [hthen.started_eq, hfirst.started_eq, List.append_assoc]
  givenUp_eq := by rw [hthen.givenUp_eq, hfirst.givenUp_eq, List.append_assoc]
  mem_points point hpoint := hthen.mem_points point (hfirst.mem_points point hpoint)

/-- More points may wait. -/
theorem Account.Leads.wait (account : Account) (more : List BacktrackPoint) :
    account.Leads [] [] { account with waiting := account.waiting ++ more } where
  started_eq := by simp
  givenUp_eq := by simp
  mem_points point hpoint := by
    have hsplit := List.mem_append_left more hpoint
    simpa [points, taken] using hsplit

namespace Explorer

variable {σ φ : Type} {explorer later : Explorer σ φ}

/-- The orders and conflicts of the executions that started at a backtrack point. -/
def restarts (explorer : Explorer σ φ) : List (List Event × TransitionRef) :=
  explorer.history.toList.filterMap fun start =>
    (explorer.knowledge.log.origin? start.execution).map (start.schedule, ·)

/-- An explorer at whose points an account is right, apart from how the current execution stands. -/
structure Accounts (explorer : Explorer σ φ) (account : Account) : Prop
    extends explorer.Steady where
  /-- The backlog holds the points that wait, and the others were taken off it. -/
  ledger : ∃ taken, explorer.knowledge.backlog.Ledger account.waiting taken ∧
    taken.Perm account.taken
  /-- Every point has an order, and its conflict is at a place of its state. -/
  founded : ∀ point ∈ account.points, point.schedule ≠ [] ∧
    ∃ transition, explorer.knowledge.log.taken? point.conflict = some transition ∧
      transition.state = point.state
  /-- Exactly the points started have executions in the history. -/
  restarts : explorer.restarts = account.started.map fun point => (point.schedule, point.conflict)

/-- What the next decision starts: an execution that no backtrack point called for, none at all, or
the one of the point at which a restart was announced. -/
inductive Announces (explorer : Explorer σ φ) : Option BacktrackPoint → Prop
  | /-- No restart waits to be adopted. -/
    nothing (hpending : explorer.pendingSchedule = none)
      (horigin : ∀ execution, explorer.knowledge.log.get? explorer.current = some execution →
        execution.fresh = true → execution.origin = none) : Announces explorer none
  | /-- A restart at the point waits to be adopted. -/
    restart {point : BacktrackPoint} {execution : Execution} {held : Transition}
      (hreducing : explorer.reducing = true) (hseen : explorer.offersSeen = true)
      (hended : explorer.ended = true) (hpending : explorer.pendingSchedule = some point.schedule)
      (hget : explorer.knowledge.log.get? explorer.current = some execution)
      (hfresh : execution.fresh = true) (hheld : execution.trace[0]? = some held)
      (hstate : held.state = point.state) (horigin : execution.origin = some point.conflict) :
      Announces explorer (some point)

/-- The explorer has an account that is right and leads on from the given one, these points having
been started and given up since. -/
def ContinuesFrom (explorer : Explorer σ φ) (account : Account)
    (started dropped : List BacktrackPoint) : Prop :=
  ∃ later, explorer.Accounts later ∧ explorer.Announces later.announced ∧
    account.Leads started dropped later

variable {account : Account} {announced : Option BacktrackPoint}

/-- An account stays right while no point is admitted, taken off the backlog or started. -/
theorem Accounts.keep (h : explorer.Accounts account) (hsteady : later.Steady)
    (hbacklog : later.knowledge.backlog = explorer.knowledge.backlog)
    (htaken : ∀ place transition, explorer.knowledge.log.taken? place = some transition →
      later.knowledge.log.taken? place = some transition)
    (hhistory : later.history = explorer.history)
    (horigin : ∀ start ∈ explorer.history,
      later.knowledge.log.origin? start.execution =
        explorer.knowledge.log.origin? start.execution) : later.Accounts account where
  toSteady := hsteady
  ledger := hbacklog ▸ h.ledger
  founded point hpoint := by
    obtain ⟨hsome, transition, hplace, hstate⟩ := h.founded point hpoint
    exact ⟨hsome, transition, htaken _ _ hplace, hstate⟩
  restarts := by
    rw [← h.restarts, Explorer.restarts, Explorer.restarts, hhistory]
    refine List.filterMap_congr fun start hstart => ?_
    rw [horigin start (Array.mem_toList_iff.mp hstart)]

/-- What the next decision starts stays the same while the current execution does. -/
theorem Announces.keep (h : explorer.Announces announced)
    (hreducing : explorer.offersSeen = true → explorer.reducing = true → later.reducing = true)
    (hseen : explorer.offersSeen = true → later.offersSeen = true)
    (hended : explorer.ended = true → later.ended = true)
    (hpending : later.pendingSchedule = explorer.pendingSchedule)
    (hcurrent : later.knowledge.log.get? later.current =
      explorer.knowledge.log.get? explorer.current) : later.Announces announced := by
  cases h with
  | nothing hnone horigin => exact .nothing (hpending.trans hnone) (hcurrent ▸ horigin)
  | restart hreduces hsaw hover horder hget hfresh hheld hstate horigin =>
    exact .restart (hreducing hsaw hreduces) (hseen hsaw) (hended hover) (hpending.trans horder)
      (hcurrent.trans hget) hfresh hheld hstate horigin

/-- Every point of an account is in a state that has a snapshot. -/
theorem Accounts.snapshot_of_points (h : explorer.Accounts account) {point : BacktrackPoint}
    (hpoint : point ∈ account.points) : point.state ∈ explorer.snapshots := by
  obtain ⟨-, transition, htaken, hstate⟩ := h.founded point hpoint
  exact hstate ▸ h.snapshot_of_taken _ _ htaken

/-- What is gathered from executions that have begun waits besides the other points. -/
theorem Accounts.gathers (h : explorer.Accounts account) {reference : List Event}
    {knowledge : Knowledge}
    (hgathers : explorer.knowledge.Gathers explorer.begunPlaces reference knowledge) :
    ∃ more, ({ explorer with knowledge } : Explorer σ φ).Accounts
      { account with waiting := account.waiting ++ more } := by
  obtain ⟨taken, hledger, htaken⟩ := h.ledger
  obtain ⟨more, hmore, hgathered⟩ := hgathers.ledger _ taken hledger
  refine ⟨more, h.toSteady.gathers hgathers, ⟨taken, hmore, htaken⟩, fun point hpoint => ?_, ?_⟩
  · rw [hgathers.log_eq]
    have hsplit : point ∈ account.points ∨ point ∈ more := by
      simpa [Account.points, Account.taken, or_assoc] using hpoint
    rcases hsplit with hold | hnew
    · exact h.founded point hold
    · obtain ⟨hbegun, transition, event, hplace, hreorder⟩ := hgathered point hnew
      refine ⟨by rw [hreorder]; exact List.cons_ne_nil _ _, transition, ?_,
        by rw [hreorder]; rfl⟩
      rw [hbegun.taken?_eq]
      exact hplace
  · rw [← h.restarts]
    simp only [Explorer.restarts, hgathers.log_eq]

/-- No execution in the history is the one that supersedes another. -/
theorem Steady.restarts_supersede (h : explorer.Steady) {execution : Execution}
    (hlog : later.knowledge.log =
      (explorer.knowledge.log.modify explorer.current Execution.release).add execution)
    (hhistory : later.history = explorer.history) : later.restarts = explorer.restarts := by
  unfold restarts
  rw [hhistory, hlog]
  refine List.filterMap_congr fun start hstart => ?_
  have hbegun := h.begun_of_history start (Array.mem_toList_iff.mp hstart)
  rw [hbegun.origin?_add, ExecutionLog.origin?_modify Execution.release fun _ => rfl]

/-- Announcing a restart gives up the one announced before, if no decision has adopted it. -/
theorem Accounts.announcing (h : explorer.Accounts account) (hreducing : explorer.reducing = true)
    {next : BacktrackPoint} {rest : Backlog}
    (hpop : explorer.knowledge.backlog.pop? = some (next, rest)) :
    (explorer.announcing next rest).ContinuesFrom account [] account.announced.toList := by
  obtain ⟨taken, hledger, htaken⟩ := h.ledger
  obtain ⟨before, after, hwaiting, hrest, -⟩ := hledger.pop? hpop
  have hnext : next ∈ account.points := by simp [Account.points, hwaiting]
  let moved : Account := { account.drop with announced := some next, waiting := before ++ after }
  have hpoints (point : BacktrackPoint) : point ∈ moved.points ↔ point ∈ account.points := by
    rw [← Account.mem_points_drop_iff]
    simp only [Account.points, Account.taken, Account.drop, moved, hwaiting, List.mem_append,
      List.mem_cons, Option.toList_some, Option.toList_none, List.not_mem_nil, or_false]
    tauto
  refine ⟨moved, ⟨h.toSteady.announcing next rest, ⟨taken ++ [next], hrest, ?_⟩,
    fun point hpoint => ?_, ?_⟩, ?_, by simp [moved, Account.drop], rfl, fun point hpoint =>
      (hpoints point).mpr hpoint⟩
  · have hperm := htaken.trans account.taken_drop_perm.symm
    rw [List.perm_iff_count] at hperm ⊢
    intro point
    have := hperm point
    simp only [Account.taken, Account.drop, moved, List.count_append, Option.toList_some,
      Option.toList_none, List.count_nil] at this ⊢
    omega
  · obtain ⟨hsome, transition, hplace, hstate⟩ := h.founded point ((hpoints point).mp hpoint)
    exact ⟨hsome, transition, (ExecutionLog.taken?_supersede rfl _ _ _).trans hplace, hstate⟩
  · refine Eq.trans ?_ h.restarts
    exact h.toSteady.restarts_supersede rfl rfl
  · obtain ⟨-, transition, hplace, -⟩ := h.founded next hnext
    have hseen : explorer.offersSeen = true := by
      by_contra hunseen
      have hnone := (h.unseen (by simpa using hunseen)).2 next.conflict
      exact absurd (hnone.symm.trans hplace) (by simp)
    have hget : (explorer.announcing next rest).knowledge.log.get?
        (explorer.announcing next rest).current =
          some (placeholder (some next.conflict) next.state (next.first?.getD ⟨0⟩)) := by
      simp [Explorer.announcing, ExecutionLog.get?_add, next_modify]
    exact .restart hreducing hseen rfl rfl hget rfl rfl rfl rfl

/-- An explorer whose next decision starts the execution of the given point, or none that a point
called for. -/
structure Opens (explorer : Explorer σ φ) (due : Option BacktrackPoint) : Prop where
  /-- No restart waits to be adopted. -/
  pendingSchedule : explorer.pendingSchedule = none
  /-- The order of the point is in force, and its execution waits for the decision. -/
  order : ∀ point ∈ due, explorer.schedule.order = point.schedule ∧
    ∃ execution, explorer.knowledge.log.get? explorer.current = some execution ∧
      execution.fresh = true
  /-- The execution that waits for the decision was called for by the conflict of the point. -/
  origin : ∀ execution, explorer.knowledge.log.get? explorer.current = some execution →
    execution.fresh = true → execution.origin = due.map (·.conflict)

/-- Adopting a restart makes the next decision start its execution. -/
theorem Announces.adoptPending (h : explorer.Announces announced) :
    explorer.adoptPending.Opens announced := by
  unfold Explorer.adoptPending
  cases h with
  | nothing hpending horigin =>
    simp only [hpending]
    exact ⟨hpending, by simp, horigin⟩
  | restart _ _ _ hpending hget hfresh _ _ horigin =>
    simp only [hpending]
    refine ⟨rfl, fun point hpoint => ?_, fun execution hthere _ => ?_⟩
    · rw [← Option.some.inj hpoint]
      exact ⟨rfl, _, hget, hfresh⟩
    · rw [← Option.some.inj (hget.symm.trans hthere)]
      exact horigin

/-- Recording the decision adds the execution of the point to those that were started. -/
theorem Opens.restarts_recordedIn (h : explorer.Opens announced) {execution : Execution}
    (hget : explorer.knowledge.log.get? explorer.current = some execution) (view : HostView σ)
    (point : PointId) (event : Event) :
    (explorer.recordedIn execution view point event).restarts = explorer.restarts ++
      announced.toList.map fun point => (point.schedule, point.conflict) := by
  have horigin (id : ExecutionId) := explorer.origin?_recordedIn execution view point event id
  have hbefore : explorer.restarts = explorer.history.toList.filterMap fun start =>
      ((explorer.recordedIn execution view point event).knowledge.log.origin?
        start.execution).map (start.schedule, ·) := by
    simp only [horigin]
    rfl
  rw [hbefore]
  cases hfresh : execution.fresh with
  | true =>
    -- The execution enters the history now, with the origin that the point gave it.
    have hhistory : (explorer.recordedIn execution view point event).history.toList =
        explorer.history.toList ++
          [⟨explorer.current, view.state, explorer.schedule.order⟩] := by
      simp [Explorer.recordedIn, hfresh]
    have hhere : explorer.knowledge.log.origin? explorer.current =
        announced.map (·.conflict) := by
      rw [← h.origin execution hget hfresh]
      simp [ExecutionLog.origin?, hget]
    rw [Explorer.restarts, hhistory, List.filterMap_append]
    congr 1
    cases announced with
    | none => simp [horigin, hhere]
    | some due => simp [horigin, hhere, (h.order due rfl).1]
  | false =>
    cases announced with
    | none => simp [Explorer.restarts, Explorer.recordedIn, hfresh]
    | some due =>
      obtain ⟨-, other, hother, hwaits⟩ := h.order due rfl
      rw [Option.some.inj (hget.symm.trans hother), hwaits] at hfresh
      exact absurd hfresh (by simp)

/-- Recording the decision starts the execution of the point. -/
theorem Accounts.recordedIn (h : explorer.Accounts account)
    (hopens : explorer.Opens account.announced) (hsome : explorer.schedule.order ≠ [])
    {execution : Execution}
    (hget : explorer.knowledge.log.get? explorer.current = some execution)
    (hholds : execution.Holds) (view : HostView σ) (point : PointId) (event : Event) :
    ∃ later, (explorer.recordedIn execution view point event).Accounts later ∧
      (explorer.recordedIn execution view point event).Announces none ∧ later.announced = none ∧
      account.Leads account.announced.toList [] later := by
  obtain ⟨hsteady, hbegun⟩ := h.toSteady.recordedIn hsome hget hholds view point event
  let moved : Account :=
    { account with started := account.started ++ account.announced.toList, announced := none }
  have hpoints : moved.points = account.points := by
    simp [Account.points, Account.taken, moved]
  refine ⟨moved, ⟨hsteady, ?_, fun other hother => ?_, ?_⟩, .nothing hopens.pendingSchedule ?_, rfl,
    rfl, by simp [moved], fun other hother => hpoints ▸ hother⟩
  · obtain ⟨taken, hledger, htaken⟩ := h.ledger
    exact ⟨taken, hledger, by simpa [Account.taken, moved] using htaken⟩
  · obtain ⟨hsome, transition, hplace, hstate⟩ := h.founded other (hpoints ▸ hother)
    exact ⟨hsome, transition, taken?_recordedIn_of_taken? hget hholds view point event hplace,
      hstate⟩
  · rw [hopens.restarts_recordedIn hget, h.restarts, List.map_append]
  · intro other hother hwaits
    exact absurd (hbegun.fresh_eq_false hother) (by simp [hwaits])

/-- A restart is announced only once a decision point was opened. -/
theorem Announces.offersSeen_of_pending (h : explorer.Announces announced)
    (hpending : explorer.pendingSchedule.isSome) : explorer.offersSeen = true := by
  cases h with
  | nothing hnone => simp [hnone] at hpending
  | restart _ hseen => exact hseen

/-- Without anything to reduce no restart is announced. -/
theorem Announces.eq_none_of_not_reducing (h : explorer.Announces announced)
    (hreducing : explorer.reducing = false) : announced = none := by
  cases h with
  | nothing => rfl
  | restart hreduces => exact absurd (hreduces.symm.trans hreducing) (by simp)

/-- Without an order that waits to be adopted none is announced either. -/
theorem Announces.eq_none_of_not_pending (h : explorer.Announces announced)
    (hpending : explorer.pendingSchedule = none) : announced = none := by
  cases h with
  | nothing => rfl
  | restart _ _ _ horder => exact absurd (horder.symm.trans hpending) (by simp)

/-- Adopting a restart keeps an account right. -/
theorem Accounts.adoptPending (h : explorer.Accounts account)
    (hannounces : explorer.Announces account.announced) :
    explorer.adoptPending.Accounts account := by
  have hsteady := h.toSteady.adoptPending hannounces.offersSeen_of_pending
  unfold Explorer.adoptPending at hsteady ⊢
  split at hsteady
  · exact h
  · exact h.keep hsteady rfl (fun _ _ hplace => hplace) rfl fun _ _ => rfl

/-- Passing the split point gives up the announced point when a new round starts. -/
theorem Accounts.splitAdvanced (h : explorer.Accounts account)
    (hannounces : explorer.Announces account.announced) :
    explorer.splitAdvanced.ContinuesFrom account []
      (if explorer.reducing && explorer.splitPassed then account.announced.toList else []) := by
  rw [splitAdvanced_eq]
  split
  · refine ⟨account.drop, ⟨h.toSteady.renewed, ?_, fun point hpoint => ?_, ?_⟩,
      .nothing rfl fun execution hget _ => ?_, by simp [Account.drop], rfl,
      fun point hpoint => Account.mem_points_drop_iff.mpr hpoint⟩
    · obtain ⟨taken, hledger, hperm⟩ := h.ledger
      exact ⟨taken, hledger, hperm.trans account.taken_drop_perm.symm⟩
    · obtain ⟨hsome, transition, hplace, hstate⟩ :=
        h.founded point (Account.mem_points_drop_iff.mp hpoint)
      exact ⟨hsome, transition, (ExecutionLog.taken?_supersede rfl _ _ _).trans hplace, hstate⟩
    · refine Eq.trans ?_ h.restarts
      exact h.toSteady.restarts_supersede rfl rfl
    · change ((explorer.knowledge.log.modify _ _).add _).get? explorer.knowledge.log.next =
        _ at hget
      rw [ExecutionLog.get?_add, next_modify, if_pos rfl] at hget
      rw [← Option.some.inj hget]
      rfl
  · refine ⟨account, ?_, ?_, .refl account⟩
    · exact h.keep (h.toSteady.congr rfl rfl rfl rfl rfl h.begun h.unseen_order) rfl
        (fun _ _ hplace => hplace) rfl fun _ _ => rfl
    · exact hannounces.keep (fun _ hreduces => hreduces) id id rfl rfl

/-- Opening a decision point does not touch any backtrack point. -/
theorem Accounts.pointRegistered (h : explorer.Accounts account)
    (hannounces : explorer.Announces account.announced) (point : DecisionPoint) :
    (explorer.pointRegistered point).1.Accounts account ∧
      (explorer.pointRegistered point).1.Announces account.announced := by
  have hsteady := h.toSteady.pointRegistered point
  have hsettles := explorer.pointRegistered_settles point
  obtain ⟨reducing, offersSeen, schedule, lastEvent, events, hregistered⟩ :=
    explorer.pointRegistered_same point
  rw [hregistered] at hsteady hsettles ⊢
  refine ⟨h.keep hsteady rfl (fun _ _ hplace => hplace) rfl fun _ _ => rfl,
    hannounces.keep (fun hseen hreduces => ?_) (fun _ => hsettles.1) id rfl rfl⟩
  rw [hsettles.2, hseen, hreduces]
  rfl

/-- Neither does entering a state. -/
theorem Accounts.stateEntered (h : explorer.Accounts account)
    (hannounces : explorer.Announces account.announced) (state : StateId) :
    (explorer.stateEntered state).Accounts account ∧
      (explorer.stateEntered state).Announces account.announced := by
  have hsteady := h.toSteady.stateEntered state
  obtain ⟨predecessors, visits, hentered⟩ := explorer.stateEntered_same state
  rw [hentered] at hsteady ⊢
  exact ⟨h.keep hsteady rfl (fun _ _ hplace => hplace) rfl fun _ _ => rfl,
    hannounces.keep (fun _ hreduces => hreduces) id id rfl rfl⟩

/-- Neither does observing an access, which is recorded only while no restart is announced. -/
theorem Accounts.accessObserved [AccessFilter φ] (h : explorer.Accounts account)
    (hannounces : explorer.Announces account.announced) (active : ActivePoint)
    (access : Option Access) :
    (explorer.accessObserved active access).Accounts account ∧
      (explorer.accessObserved active access).Announces account.announced := by
  have hsteady := h.toSteady.accessObserved active access
  obtain ⟨filter, hsame | ⟨hended, -, position, recorded, hrecorded⟩⟩ :=
    explorer.accessObserved_cases active access
  · rw [hsame] at hsteady ⊢
    exact ⟨h.keep hsteady rfl (fun _ _ hplace => hplace) rfl fun _ _ => rfl,
      hannounces.keep (fun _ hreduces => hreduces) id id rfl rfl⟩
  · rw [hrecorded] at hsteady ⊢
    refine ⟨h.keep hsteady rfl (fun place transition hplace => ?_) rfl fun start _ => ?_, ?_⟩
    · exact (ExecutionLog.taken?_modify_of_same (·.recordAccess position recorded) (fun _ => rfl)
        (fun _ => rfl) _ _ place).trans hplace
    · exact ExecutionLog.origin?_modify (·.recordAccess position recorded) (fun _ => rfl) _ _ _
    · generalize account.announced = announced at hannounces
      cases hannounces with
      | restart _ _ hover => exact absurd (hover.symm.trans hended) (by simp)
      | nothing hpending horigin =>
        refine .nothing hpending fun execution hget hfresh => ?_
        simp only [modifyCurrent, ExecutionLog.get?_modify, if_true] at hget
        obtain ⟨before, hbefore, rfl⟩ := Option.map_eq_some_iff.mp hget
        exact horigin before hbefore hfresh

end Explorer

end EventOrder
