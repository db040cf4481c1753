import EventOrder.Proofs.Explorer.Accounts

/-!
# What the explorer may answer

Whatever calls were made before, advancing a decision point and ending a path have few outcomes. A
decision is recorded, and what was learnt from the event before it changes only the knowledge; then
the decision goes ahead, or the search is finished, or it starts over at the backtrack point that is
taken off the backlog. This file lists the outcomes once, with all that the host is asked to do, and
follows the account of the backtrack points through them.
-/

namespace EventOrder.Explorer

variable {σ φ : Type} {explorer : Explorer σ φ} {account : Account}

/-- How the explorer moves on when the execution under way ends: the explorer then, what the host is
asked to do, and how it goes on. -/
inductive MovesOn (explorer : Explorer σ φ) (view : HostView σ) :
    Explorer σ φ → List (HostRequest σ) → Flow → Prop
  | /-- No point waits. -/
    finished (hpop : explorer.knowledge.backlog.pop? = none) :
      MovesOn explorer view explorer.endExecution [] .finished
  | /-- A point is taken off the backlog, and a restart at it is announced. -/
    restarted {next : BacktrackPoint} {rest : Backlog} {snapshot : σ}
      (hpop : explorer.knowledge.backlog.pop? = some (next, rest))
      (hsnapshot : explorer.snapshots[next.state]? = some snapshot) :
      MovesOn explorer view (explorer.announcing next rest)
        (explorer.closeCurrent ++ returning view next.state snapshot ++ [.offer next.schedule])
        .restarted

/-- How a decision for an event ends, once it was recorded and the explorer has learnt from it. -/
inductive Concludes (explorer : Explorer σ φ) (view : HostView σ) (event : Event) :
    Explorer σ φ → List (HostRequest σ) → Except ExplorationError Flow → Prop
  | /-- Learning has failed. -/
    failed (error : ExplorationError) : Concludes explorer view event explorer [] (.error error)
  | /-- The decision goes ahead. -/
    proceeded (hdepth : explorer.atMaxDepth = false) :
      Concludes explorer view event (explorer.proceeded view.state event) [] (.ok .proceed)
  | /-- The execution ends. -/
    moved {later : Explorer σ φ} {requests : List (HostRequest σ)} {flow : Flow}
      (hmoves : explorer.MovesOn view later requests flow) (visits : Visits) :
      Concludes explorer view event { later with visits, counter := later.counter + 1 } requests
        (.ok flow)

/-- Moving on does not fail. -/
theorem Accounts.movesOn (h : explorer.Accounts account) (view : HostView σ)
    (point : DecisionPoint) :
    ∃ later left requests flow, explorer.moveOn view point = ⟨later, left, requests, .ok flow⟩ ∧
      explorer.MovesOn view later requests flow := by
  cases hpop : explorer.knowledge.backlog.pop? with
  | none =>
    exact ⟨_, _, _, _, outcome_moveOn_of_pop?_eq_none hpop view point, .finished hpop⟩
  | some popped =>
    obtain ⟨next, rest⟩ := popped
    obtain ⟨taken, hledger, -⟩ := h.ledger
    obtain ⟨before, after, hwaiting, -⟩ := hledger.pop? hpop
    have hkept : next.state ∈ explorer.snapshots :=
      h.snapshot_of_points (by simp [Account.points, hwaiting])
    obtain ⟨snapshot, hsnapshot⟩ := Option.isSome_iff_exists.mp
      (Std.ExtTreeMap.isSome_getElem?_iff_mem.mpr hkept)
    have hmoved := moveOn_eq hpop hsnapshot view point
    simp only [beginExecution, modifyCurrent, next_modify] at hmoved
    exact ⟨_, _, _, _, hmoved, .restarted hpop hsnapshot⟩

/-- A decision that was recorded goes ahead, or the explorer moves on. -/
private theorem Accounts.concludes (h : explorer.Accounts account) (ends : Bool)
    (hends : ends = false → explorer.atMaxDepth = false) (view : HostView σ)
    (point : DecisionPoint) (event : Event) :
    explorer.Concludes view event (explorer.conclude ends view point event).explorer
      (explorer.conclude ends view point event).requests
      (explorer.conclude ends view point event).outcome := by
  cases ends with
  | false => exact .proceeded (hends rfl)
  | true =>
    obtain ⟨later, left, requests, flow, hmoved, hmoves⟩ := h.movesOn view point
    simp only [Explorer.conclude, if_true, hmoved]
    exact .moved hmoves _

/-- The explorer after a decision was recorded, with what it knows then. -/
def learnt (explorer : Explorer σ φ) (execution : Execution) (view : HostView σ) (point : PointId)
    (event : Event) (knowledge : Knowledge) : Explorer σ φ :=
  { explorer.recordedIn execution view point event with knowledge }

/-- What a decision does for the event that is due. It is recorded at the end of the current
execution, learning changes only the knowledge, and then the decision is concluded. -/
structure Decides (explorer : Explorer σ φ) (view : HostView σ) (point : PointId) (event : Event)
    (reply : Reply σ φ) (execution : Execution) (knowledge : Knowledge)
    (requests : List (HostRequest σ)) : Prop where
  /-- The decision belongs to the current execution. -/
  get? : explorer.knowledge.log.get? explorer.current = some execution
  /-- That execution holds its decisions. -/
  holds : execution.Holds
  /-- The explorer has learnt from executions that have begun. -/
  gathers : (explorer.recordedIn execution view point event).knowledge.Gathers
    (explorer.recordedIn execution view point event).begunPlaces explorer.schedule.order knowledge
  /-- All points that were admitted are accounted for. -/
  accounts : ∃ account,
    (explorer.learnt execution view point event knowledge).Accounts account
  /-- The host may be asked to keep a snapshot first. -/
  requests_eq : reply.requests = explorer.capture view ++ requests
  /-- The decision is concluded. -/
  concludes : (explorer.learnt execution view point event knowledge).Concludes view event
    reply.explorer requests reply.outcome

/-- Learning begins no execution. -/
private theorem begunPlaces_eq {stands : TransitionRef → Prop} {reference : List Event}
    {knowledge : Knowledge} (h : explorer.knowledge.Gathers stands reference knowledge) :
    ({ explorer with knowledge } : Explorer σ φ).begunPlaces = explorer.begunPlaces := by
  unfold begunPlaces
  simp only [h.log_eq]

/-- A decision is recorded and concluded, whatever was decided before. -/
theorem Accounts.decides (h : explorer.Accounts account)
    (hopens : explorer.Opens account.announced) (hsome : explorer.schedule.order ≠ [])
    (view : HostView σ) (point : DecisionPoint) (event : Event) :
    ∃ execution knowledge requests, explorer.Decides view point.id event
      (explorer.decide view point event) execution knowledge requests := by
  obtain ⟨execution, hget, hholds⟩ := h.current
  obtain ⟨recorded, hrecorded, hnoted⟩ :=
    recordDecision_of_holds hget hholds view point.id event
  obtain ⟨started, hstarted, -⟩ := h.recordedIn hopens hsome hget hholds view point.id event
  have hbegun := (h.toSteady.recordedIn hsome hget hholds view point.id event).2
  obtain ⟨first, hfirst, hgathers⟩ := hstarted.toSteady.completePrevious_gathers
  obtain ⟨more, hcompleted⟩ := hstarted.gathers hgathers
  obtain ⟨last, hlast, hgathersThen⟩ := hcompleted.toSteady.hasNothingNew_gathers (by
    change first.log.HasBegun explorer.current
    rw [hgathers.log_eq]
    exact hbegun)
  obtain ⟨others, hweighed⟩ := hcompleted.gathers hgathersThen
  unfold Explorer.decide
  rw [hrecorded]
  simp only [hnoted]
  split
  · rename_i completed error heq
    rw [heq] at hfirst
    obtain rfl : completed = _ := hfirst
    exact ⟨execution, first, [], hget, hholds, hgathers, ⟨_, hcompleted⟩, by simp, .failed error⟩
  · rename_i completed created heq
    rw [heq] at hfirst
    obtain rfl : completed = _ := hfirst
    have hlearnt := hgathers.trans (begunPlaces_eq hgathers ▸ hgathersThen)
    split
    · rename_i weighed error heq
      rw [heq] at hlast
      obtain rfl : weighed = _ := hlast
      exact ⟨execution, last, [], hget, hholds, hlearnt, ⟨_, hweighed⟩, by simp, .failed error⟩
    · rename_i weighed ends heq
      rw [heq] at hlast
      obtain rfl : weighed = _ := hlast
      exact ⟨execution, last, _, hget, hholds, hlearnt, ⟨_, hweighed⟩, rfl,
        hweighed.concludes _ (fun hgoes => (Bool.or_eq_false_iff.mp hgoes).2) view point event⟩

/-- What advancing a decision point does. -/
inductive Advances (explorer : Explorer σ φ) (view : HostView σ) (point : DecisionPoint) :
    Reply σ φ → Prop
  | /-- Transitions are only counted. -/
    counted (hreducing : explorer.reducing = false) :
      Advances explorer view point
        ⟨{ explorer with statistics := explorer.statistics.count }, point, [], .ok .proceed⟩
  | /-- No order is in force. -/
    idle (hreducing : explorer.reducing = true) (hpending : explorer.pendingSchedule = none)
      (hempty : explorer.schedule.order = []) :
      Advances explorer view point ⟨explorer, point, [], .ok .proceed⟩
  | /-- A decision is made, in the execution that was announced if there is one. -/
    decided {reply : Reply σ φ} {event : Event} {execution : Execution} {knowledge : Knowledge}
      {requests : List (HostRequest σ)} (hreducing : explorer.reducing = true)
      (hsome : explorer.adoptPending.schedule.order ≠ [])
      (hdue : explorer.adoptPending.schedule.eventAt? explorer.adoptPending.counter = some event)
      (hdecides : explorer.adoptPending.Decides view point.id event reply execution knowledge
        requests) :
      Advances explorer view point reply

/-- No event is due only when no order is in force. -/
private theorem order_eq_nil_of_eventAt? {schedule : Schedule} {position : Nat}
    (hdue : schedule.eventAt? position = none) : schedule.order = [] := by
  by_contra hsome
  have hbound := Nat.mod_lt position (List.length_pos_iff.mpr hsome)
  simp only [Schedule.eventAt?, List.getElem?_eq_none_iff] at hdue
  omega

/-- An announced restart has an order that can be followed. -/
private theorem Accounts.adoptPending_eq (h : explorer.Accounts account)
    (hannounces : explorer.Announces account.announced)
    (hempty : explorer.adoptPending.schedule.order = []) :
    explorer.pendingSchedule = none ∧ explorer.adoptPending = explorer := by
  cases hpending : explorer.pendingSchedule with
  | none => exact ⟨rfl, by simp [Explorer.adoptPending, hpending]⟩
  | some order =>
    generalize hannounced : account.announced = announced at hannounces
    cases hannounces with
    | nothing hnone => exact absurd (hnone.symm.trans hpending) (by simp)
    | @restart point _ _ _ _ _ horder =>
      obtain rfl : point.schedule = order := Option.some.inj (horder.symm.trans hpending)
      simp only [Explorer.adoptPending, hpending] at hempty
      exact absurd hempty (h.founded point (by simp [Account.points, Account.taken, hannounced])).1

/-- Advancing a decision point has no other outcomes. -/
theorem Accounts.advances (h : explorer.Accounts account)
    (hannounces : explorer.Announces account.announced) (view : HostView σ)
    (point : DecisionPoint) :
    explorer.Advances view point (explorer.choiceAdvanced view point) := by
  cases hreducing : explorer.reducing with
  | false =>
    rw [choiceAdvanced_of_not_reducing hreducing]
    exact .counted hreducing
  | true =>
    cases hdue : explorer.adoptPending.schedule.eventAt? explorer.adoptPending.counter with
    | none =>
      have hempty := order_eq_nil_of_eventAt? hdue
      obtain ⟨hpending, hsame⟩ := h.adoptPending_eq hannounces hempty
      rw [choiceAdvanced_of_not_due hreducing hdue, hsame]
      exact .idle hreducing hpending (hsame ▸ hempty)
    | some event =>
      have hsome : explorer.adoptPending.schedule.order ≠ [] := by
        intro hempty
        simp [Schedule.eventAt?, hempty] at hdue
      obtain ⟨execution, knowledge, requests, hdecides⟩ := (h.adoptPending hannounces).decides
        hannounces.adoptPending hsome view (point.force event) event
      rw [choiceAdvanced_of_due hreducing hdue]
      exact .decided hreducing hsome hdue hdecides

/-- What the end of a path does: the explorer then, what the host is asked to do, and how it goes
on. -/
inductive Ends (explorer : Explorer σ φ) (view : HostView σ) :
    Explorer σ φ → List (HostRequest σ) → Except ExplorationError Flow → Prop
  | /-- Transitions are only counted. -/
    counted (hreducing : explorer.reducing = false) : Ends explorer view explorer [] (.ok .proceed)
  | /-- Learning has failed. -/
    failed {knowledge : Knowledge} (hreducing : explorer.reducing = true)
      (hgathers : explorer.knowledge.Gathers explorer.begunPlaces explorer.schedule.order knowledge)
      (error : ExplorationError) : Ends explorer view { explorer with knowledge } [] (.error error)
  | /-- The explorer moves on. -/
    moved {knowledge : Knowledge} {account : Account} {later : Explorer σ φ}
      {requests : List (HostRequest σ)} {flow : Flow} (hreducing : explorer.reducing = true)
      (hgathers : explorer.knowledge.Gathers explorer.begunPlaces explorer.schedule.order knowledge)
      (haccounts : ({ explorer with knowledge } : Explorer σ φ).Accounts account)
      (hmoves : ({ explorer with knowledge } : Explorer σ φ).MovesOn view later requests flow)
      (visits : Visits) :
      Ends explorer view { later with visits, counter := later.counter + 1 } requests (.ok flow)

/-- Ending a path has no other outcomes. -/
theorem Accounts.ends (h : explorer.Accounts account) (view : HostView σ) (point : DecisionPoint) :
    explorer.Ends view (explorer.pathMatched view point).explorer
      (explorer.pathMatched view point).requests (explorer.pathMatched view point).outcome := by
  cases hreducing : explorer.reducing with
  | false =>
    simp only [Explorer.pathMatched, hreducing, Bool.not_false, if_true]
    exact .counted hreducing
  | true =>
    obtain ⟨knowledge, hcompleted, hgathers⟩ := h.toSteady.completePrevious_gathers
    obtain ⟨more, haccounts⟩ := h.gathers hgathers
    have hreduces : (!explorer.reducing) = false := by simp [hreducing]
    simp only [Explorer.pathMatched, hreduces, Bool.false_eq_true, if_false]
    split
    · rename_i completed error heq
      rw [heq] at hcompleted
      obtain rfl : completed = _ := hcompleted
      exact .failed hreducing hgathers error
    · rename_i completed created heq
      rw [heq] at hcompleted
      obtain rfl : completed = _ := hcompleted
      obtain ⟨later, left, requests, flow, hmoved, hmoves⟩ := haccounts.movesOn view point
      simp only [hmoved]
      exact .moved hreducing hgathers haccounts hmoves _

/-- What the end of an execution gives up: the announced point, if a restart is announced. -/
def dropped (outcome : Except ExplorationError Flow) (announced : Option BacktrackPoint) :
    Option BacktrackPoint :=
  match outcome with
  | .ok .restarted => announced
  | _ => none

/-- Moving on gives up at most the point that was announced before. -/
private theorem MovesOn.continuesFrom {view : HostView σ} {later : Explorer σ φ}
    {requests : List (HostRequest σ)} {flow : Flow}
    (hmoves : explorer.MovesOn view later requests flow) (h : explorer.Accounts account)
    (hannounces : explorer.Announces account.announced) (hreducing : explorer.reducing = true)
    (visits : Visits) (counter : Nat) :
    ({ later with visits, counter } : Explorer σ φ).ContinuesFrom account []
      (dropped (.ok flow) account.announced).toList := by
  cases hmoves with
  | finished =>
    refine ⟨account, ?_, ?_, .refl account⟩
    · exact h.keep (h.toSteady.congr rfl rfl rfl rfl rfl
        (fun hended => by simp [endExecution] at hended) h.unseen_order) rfl
        (fun _ _ hplace => hplace) rfl fun _ _ => rfl
    · exact hannounces.keep (fun _ hreduces => hreduces) id (fun _ => rfl) rfl rfl
  | restarted hpop =>
    obtain ⟨moved, haccounts, hmoved, hleads⟩ := h.announcing hreducing hpop
    refine ⟨moved, ?_, ?_, hleads⟩
    · exact haccounts.keep (haccounts.toSteady.congr rfl rfl rfl rfl rfl
        (fun hended => by simp [announcing] at hended) haccounts.unseen_order) rfl
        (fun _ _ hplace => hplace) rfl fun _ _ => rfl
    · exact hmoved.keep (fun _ hreduces => hreduces) id id rfl rfl

/-- A decision that was recorded fails, goes ahead or moves on, and no point is missing
afterwards. -/
private theorem Concludes.continuesFrom {view : HostView σ} {event : Event} {later : Explorer σ φ}
    {requests : List (HostRequest σ)} {outcome : Except ExplorationError Flow}
    (hconcludes : explorer.Concludes view event later requests outcome)
    (h : explorer.Accounts account) (hannounces : explorer.Announces none)
    (hnone : account.announced = none) (hreducing : explorer.reducing = true)
    (hbegun : explorer.knowledge.log.HasBegun explorer.current) :
    later.ContinuesFrom account [] [] := by
  rw [← hnone] at hannounces
  cases hconcludes with
  | failed => exact ⟨account, h, hannounces, .refl account⟩
  | proceeded =>
    refine ⟨account, ?_, ?_, .refl account⟩
    · exact h.keep (h.toSteady.congr rfl rfl rfl rfl rfl (fun _ _ => hbegun) h.unseen_order) rfl
        (fun _ _ hplace => hplace) rfl fun _ _ => rfl
    · exact hannounces.keep (fun _ hreduces => hreduces) id id rfl rfl
  | @moved later _ flow hmoves visits =>
    have hdropped : dropped (.ok flow) none = none := by cases flow <;> rfl
    have hmoved := hmoves.continuesFrom h hannounces hreducing visits (later.counter + 1)
    rwa [hnone, hdropped] at hmoved

/-- A decision starts the execution of the point that is due, and no point is missing afterwards
even if it fails. -/
private theorem Decides.continuesFrom {view : HostView σ} {point : PointId} {event : Event}
    {reply : Reply σ φ} {execution : Execution} {knowledge : Knowledge}
    {requests : List (HostRequest σ)}
    (hdecides : explorer.Decides view point event reply execution knowledge requests)
    (h : explorer.Accounts account) (hopens : explorer.Opens account.announced)
    (hreducing : explorer.reducing = true) (hsome : explorer.schedule.order ≠ []) :
    reply.explorer.ContinuesFrom account account.announced.toList [] := by
  have hget := hdecides.get?
  have hlog := hdecides.gathers.log_eq
  obtain ⟨started, hstarted, hnothing, hnone, hleads⟩ :=
    h.recordedIn hopens hsome hget hdecides.holds view point event
  have hbegun := (h.toSteady.recordedIn hsome hget hdecides.holds view point event).2
  obtain ⟨more, hlearnt⟩ := hstarted.gathers hdecides.gathers
  have hannounces : (explorer.learnt execution view point event knowledge).Announces none :=
    hnothing.keep (fun _ hreduces => hreduces) id id rfl (by rw [learnt, hlog])
  obtain ⟨later, hlater, hthen, hends⟩ :=
    hdecides.concludes.continuesFrom hlearnt hannounces hnone hreducing (hlog ▸ hbegun)
  refine ⟨later, hlater, hthen, ?_⟩
  simpa using (hleads.trans (.wait started more)).trans hends

/-- Advancing a decision point starts the execution of the announced point. -/
theorem Accounts.choiceAdvanced (h : explorer.Accounts account)
    (hannounces : explorer.Announces account.announced) (view : HostView σ)
    (point : DecisionPoint) :
    (explorer.choiceAdvanced view point).explorer.ContinuesFrom account
      account.announced.toList [] := by
  have hadvances := h.advances hannounces view point
  generalize explorer.choiceAdvanced view point = reply at hadvances ⊢
  cases hadvances with
  | counted hreducing =>
    rw [hannounces.eq_none_of_not_reducing hreducing]
    refine ⟨account, ?_, ?_, .refl account⟩
    · exact h.keep (h.toSteady.congr rfl rfl rfl rfl rfl h.begun h.unseen_order) rfl
        (fun _ _ hplace => hplace) rfl fun _ _ => rfl
    · exact hannounces.keep (fun _ hreduces => hreduces) id id rfl rfl
  | idle _ hpending =>
    rw [hannounces.eq_none_of_not_pending hpending]
    exact ⟨account, h, hannounces, .refl account⟩
  | decided hreducing hsome _ hdecides =>
    have hreduces : explorer.adoptPending.reducing = true := by
      rw [← hreducing]
      unfold Explorer.adoptPending
      split <;> rfl
    exact hdecides.continuesFrom (h.adoptPending hannounces) hannounces.adoptPending hreduces hsome

/-- Ending a path gives up the announced point when another restart is announced. -/
theorem Accounts.pathMatched (h : explorer.Accounts account)
    (hannounces : explorer.Announces account.announced) (view : HostView σ)
    (point : DecisionPoint) :
    (explorer.pathMatched view point).explorer.ContinuesFrom account []
      (dropped (explorer.pathMatched view point).outcome account.announced).toList := by
  have hends := h.ends view point
  generalize (explorer.pathMatched view point).explorer = later,
    (explorer.pathMatched view point).requests = requests,
    (explorer.pathMatched view point).outcome = outcome at hends ⊢
  have hlearns {knowledge : Knowledge}
      (hgathers : explorer.knowledge.Gathers explorer.begunPlaces explorer.schedule.order
        knowledge) :
      ({ explorer with knowledge } : Explorer σ φ).Announces account.announced :=
    hannounces.keep (fun _ hreduces => hreduces) id id rfl (by rw [hgathers.log_eq])
  cases hends with
  | counted => exact ⟨account, h, hannounces, .refl account⟩
  | failed _ hgathers =>
    obtain ⟨more, haccounts⟩ := h.gathers hgathers
    exact ⟨_, haccounts, hlearns hgathers, .wait account more⟩
  | @moved _ _ later _ _ hreducing hgathers _ hmoves visits =>
    obtain ⟨more, haccounts⟩ := h.gathers hgathers
    obtain ⟨last, hmoved, hlast, hleads⟩ := hmoves.continuesFrom haccounts (hlearns hgathers)
      hreducing visits (later.counter + 1)
    exact ⟨last, hmoved, hlast, (Account.Leads.wait account more).trans hleads⟩

end EventOrder.Explorer
