import EventOrder.Proofs.Explorer.Calls

/-!
# What a host sees of a restart

Of each state the explorer keeps one snapshot, the first that the host shows, through all rounds. A
restart closes the decision points of the execution that it supersedes, returns the host to the
state of the backtrack point, unless the host is there, and offers the order of the point. The
decision that follows starts the execution of the point.
-/

namespace EventOrder

namespace ExecutionLog

variable {log : ExecutionLog} {id : ExecutionId}

/-- The execution of a name was superseded: no decision point stands anywhere in it. -/
def Released (log : ExecutionLog) (id : ExecutionId) : Prop :=
  ∃ execution, log.get? id = some execution ∧ execution.positions = none

/-- A change that puts no decision point back leaves executions superseded. -/
theorem Released.modify (h : log.Released id) (other : ExecutionId)
    {change : Execution → Execution}
    (hchange : ∀ execution, execution.positions = none → (change execution).positions = none) :
    (log.modify other change).Released id := by
  obtain ⟨execution, hget, hnone⟩ := h
  unfold Released
  rw [get?_modify, hget]
  split
  · exact ⟨_, rfl, hchange execution hnone⟩
  · exact ⟨_, rfl, hnone⟩

/-- A new execution leaves the others superseded. -/
theorem Released.add (h : log.Released id) (execution : Execution) :
    (log.add execution).Released id := by
  obtain ⟨superseded, hget, hnone⟩ := h
  have hother : id ≠ log.next := by
    rintro rfl
    exact absurd (hget.symm.trans (get?_next log)) (by simp)
  exact ⟨superseded, by rw [get?_add, if_neg hother, hget], hnone⟩

/-- In a superseded execution no decision point has a position. -/
theorem Released.positionOf?_eq_none (h : log.Released id) (point : PointId) :
    (log.get? id).bind (·.positionOf? point) = none := by
  obtain ⟨execution, hget, hnone⟩ := h
  simp [hget, Execution.positionOf?, hnone]

end ExecutionLog

/-- What the explorer is shown when it is asked how to go on. -/
def Callback.view? {σ : Type} : Callback σ → Option (HostView σ)
  | choiceAdvanced view _ | pathMatched view _ => some view
  | _ => none

/-- The state and its snapshot, if the host was asked to keep the one shown. -/
def HostRequest.captured? {σ : Type} (view : HostView σ) : HostRequest σ → Option (StateId × σ)
  | captured => some (view.state, view.snapshot)
  | _ => none

namespace Explorer

variable {σ φ : Type} {explorer later : Explorer σ φ} {kept more : List (StateId × σ)}

/-- What the host is asked to do in a call. -/
def requests (explorer : Explorer σ φ) : Callback σ → List (HostRequest σ)
  | .choiceAdvanced view point => (explorer.choiceAdvanced view point).requests
  | .pathMatched view point => (explorer.pathMatched view point).requests
  | _ => []

/-- The snapshots captured in a call, each with its state. -/
def captured (explorer : Explorer σ φ) (callback : Callback σ) : List (StateId × σ) :=
  match callback.view? with
  | some view => (explorer.requests callback).filterMap (HostRequest.captured? view)
  | none => []

/-- The snapshots captured in all of the calls, the first one first. -/
def captures [AccessFilter φ] (explorer : Explorer σ φ) : List (Callback σ) → List (StateId × σ)
  | [] => []
  | callback :: callbacks =>
    explorer.captured callback ++ (explorer.hear callback).1.captures callbacks

/-- The snapshots that the explorer holds are those captured, and no state has two. -/
structure Keeps (explorer : Explorer σ φ) (kept : List (StateId × σ)) : Prop where
  /-- No state has two. -/
  nodup : (kept.map Prod.fst).Nodup
  /-- The first of a state is held. -/
  lookup : ∀ state, kept.lookup state = explorer.snapshots[state]?

/-- The snapshots stay as they are, or one is captured of a state that had none. -/
inductive Captures (explorer : Explorer σ φ) : List (StateId × σ) → Explorer σ φ → Prop
  | /-- Nothing is captured. -/
    nothing {later : Explorer σ φ} (hsame : later.snapshots = explorer.snapshots) :
      Captures explorer [] later
  | /-- The state had no snapshot. -/
    one {later : Explorer σ φ} {state : StateId} {snapshot : σ}
      (hnew : explorer.snapshots[state]? = none)
      (hkept : later.snapshots = explorer.snapshots.insert state snapshot) :
      Captures explorer [(state, snapshot)] later

/-- What is captured is held besides the snapshots before. -/
private theorem Captures.keeps (h : explorer.Captures more later) (hkeeps : explorer.Keeps kept) :
    later.Keeps (kept ++ more) := by
  cases h with
  | nothing hsame =>
    rw [List.append_nil]
    exact ⟨hkeeps.nodup, fun state => hsame ▸ hkeeps.lookup state⟩
  | @one _ state snapshot hnew hkept =>
    have hnone := (hkeeps.lookup state).trans hnew
    refine ⟨?_, fun other => ?_⟩
    · rw [List.map_append, List.nodup_append]
      refine ⟨hkeeps.nodup, List.nodup_singleton _, ?_⟩
      rintro _ hheld _ hsingle rfl
      obtain ⟨held, hmem, rfl⟩ := List.mem_map.mp hheld
      obtain rfl : held.1 = state := List.mem_singleton.mp hsingle
      simpa using List.lookup_eq_none_iff.mp hnone held hmem
    · rw [List.lookup_append, hkeeps.lookup, hkept, Std.ExtTreeMap.getElem?_insert]
      by_cases hsame : state = other
      · subst hsame
        simp [hnew]
      · have hother : (other == state) = false := beq_false_of_ne (Ne.symm hsame)
        simp [hsame, List.lookup_cons, hother]

/-- Moving on captures nothing. -/
private theorem MovesOn.captured {view : HostView σ} {requests : List (HostRequest σ)} {flow : Flow}
    (h : explorer.MovesOn view later requests flow) :
    requests.filterMap (HostRequest.captured? view) = [] ∧
      later.snapshots = explorer.snapshots := by
  cases h with
  | finished => exact ⟨rfl, rfl⟩
  | restarted =>
    refine ⟨?_, rfl⟩
    simp only [closeCurrent, returning, List.filterMap_append, List.filterMap_map]
    split <;> simp [HostRequest.captured?, List.filterMap_eq_nil_iff]

/-- A decision captures the snapshot shown, if it is the first of its state, and asks for nothing
else before it is concluded. -/
private theorem Decides.captures {view : HostView σ} {point : PointId} {event : Event}
    {reply : Reply σ φ} {execution : Execution} {knowledge : Knowledge}
    {requests : List (HostRequest σ)}
    (h : explorer.Decides view point event reply execution knowledge requests) :
    explorer.Captures (reply.requests.filterMap (HostRequest.captured? view)) reply.explorer ∧
      explorer.capture view =
        (reply.requests.filterMap (HostRequest.captured? view)).map fun _ => .captured := by
  have hconcludes := h.concludes
  rw [h.requests_eq]
  generalize reply.explorer = later, reply.outcome = outcome at hconcludes ⊢
  have hnone : requests.filterMap (HostRequest.captured? view) = [] ∧
      later.snapshots = (explorer.learnt execution view point event knowledge).snapshots := by
    cases hconcludes with
    | failed | proceeded => exact ⟨rfl, rfl⟩
    | moved hmoves => exact hmoves.captured
  rw [List.filterMap_append, hnone.1, List.append_nil, capture]
  split
  · rename_i hheld
    refine ⟨.nothing ?_, rfl⟩
    rw [hnone.2]
    simp [learnt, recordedIn, hheld]
  · rename_i hnew
    refine ⟨.one ?_ ?_, rfl⟩
    · rw [Std.ExtTreeMap.contains_iff_mem] at hnew
      exact Std.ExtTreeMap.getElem?_eq_none hnew
    · rw [hnone.2]
      simp [learnt, recordedIn, hnew]

/-- Moving on keeps executions superseded. -/
private theorem MovesOn.released {view : HostView σ} {requests : List (HostRequest σ)} {flow : Flow}
    (h : explorer.MovesOn view later requests flow) {id : ExecutionId}
    (hreleased : explorer.knowledge.log.Released id) : later.knowledge.log.Released id := by
  cases h with
  | finished => exact hreleased
  | restarted => exact (hreleased.modify explorer.current fun _ _ => rfl).add _

/-- Recording a decision puts no decision point back into an execution that is superseded. -/
private theorem released_recordedIn {execution : Execution} {view : HostView σ} {point : PointId}
    {event : Event} {id : ExecutionId} (h : explorer.knowledge.log.Released id) :
    (explorer.recordedIn execution view point event).knowledge.log.Released id := by
  refine (h.modify explorer.current fun _ hnone => ?_).modify explorer.current fun _ hnone => ?_
  · rw [Execution.positions_take, hnone]
  · simp [Execution.mapPoint, hnone]

/-- A decision keeps executions superseded. -/
private theorem Decides.released {view : HostView σ} {point : PointId} {event : Event}
    {reply : Reply σ φ} {execution : Execution} {knowledge : Knowledge}
    {requests : List (HostRequest σ)}
    (h : explorer.Decides view point event reply execution knowledge requests) {id : ExecutionId}
    (hreleased : explorer.knowledge.log.Released id) :
    reply.explorer.knowledge.log.Released id := by
  have hlearnt : (explorer.learnt execution view point event knowledge).knowledge.log.Released id :=
    h.gathers.log_eq ▸ released_recordedIn hreleased
  have hconcludes := h.concludes
  generalize reply.explorer = later, reply.outcome = outcome at hconcludes ⊢
  cases hconcludes with
  | failed | proceeded => exact hlearnt
  | moved hmoves => exact hmoves.released hlearnt

/-- A restart at a backtrack point, as the host sees it and as the explorer is then: `captured` are
the snapshots captured in the call, `kept` all of them up to then. -/
structure RestartsAt (explorer : Explorer σ φ) (view : HostView σ)
    (captured kept : List (StateId × σ)) (requests : List (HostRequest σ)) (later : Explorer σ φ)
    (next : BacktrackPoint) : Prop where
  /-- The point is taken off a backlog in which points may wait that the call has admitted. -/
  popped : ∃ backlog : Backlog,
    (∀ state, ∃ more,
        backlog.pendingAt state = explorer.knowledge.backlog.pendingAt state ++ more) ∧
      backlog.Pops next later.knowledge.backlog
  /-- The host closes the points of the superseded trace in order, returns to the first snapshot of
  the state if it is not there, and offers the order of the point. -/
  requests_eq : ∃ superseded snapshot,
    later.knowledge.log.get? explorer.current = some superseded ∧
      kept.lookup next.state = some snapshot ∧
      requests = captured.map (fun _ => .captured) ++ superseded.points.map .close ++
        (if view.state = next.state then [] else [.restore snapshot]) ++ [.offer next.schedule]
  /-- Another execution is current, which the conflict of the point called for. -/
  origin : later.current ≠ explorer.current ∧
    later.knowledge.log.origin? later.current = some next.conflict
  /-- No decision point stands anywhere in the superseded execution. -/
  released : later.knowledge.log.Released explorer.current
  /-- The order of the point is announced. -/
  announced : later.pendingSchedule = some next.schedule

/-- Moving on to a backtrack point restarts there. -/
private theorem MovesOn.restartsAt {view : HostView σ} {requests : List (HostRequest σ)}
    (h : explorer.MovesOn view later requests .restarted) {account : Account}
    (haccounts : explorer.Accounts account) (hkeeps : later.Keeps kept) (visits : Visits)
    (counter : Nat) :
    ∃ next, explorer.RestartsAt view [] kept requests { later with visits, counter } next := by
  cases h with
  | @restarted next rest snapshot hpop hsnapshot =>
    obtain ⟨execution, hget, -⟩ := haccounts.current
    obtain ⟨taken, hledger, -⟩ := haccounts.ledger
    have hother : explorer.current ≠ explorer.knowledge.log.next := by
      intro hsame
      rw [hsame, ExecutionLog.get?_next] at hget
      exact absurd hget (by simp)
    have hsuperseded : (explorer.announcing next rest).knowledge.log.get? explorer.current =
        some execution.release := by
      simp [announcing, ExecutionLog.get?_add, ExecutionLog.get?_modify, next_modify, hother, hget]
    refine ⟨next, ⟨explorer.knowledge.backlog, fun state => ⟨[], by simp⟩, hledger.pops hpop⟩,
      ⟨execution.release, snapshot, hsuperseded, (hkeeps.lookup next.state).trans hsnapshot, ?_⟩,
      ⟨hother.symm, ?_⟩, ⟨execution.release, hsuperseded, rfl⟩, rfl⟩
    · simp [closeCurrent, hget, returning, Execution.release, Execution.points]
    · simp [announcing, ExecutionLog.origin?, ExecutionLog.get?_add, next_modify, placeholder,
        Execution.start, Execution.push]

/-- A restart is one of an earlier explorer when points were only admitted in between and the same
execution is current. -/
private theorem RestartsAt.of_gathers {between : Explorer σ φ} {view : HostView σ}
    {captured : List (StateId × σ)} {requests : List (HostRequest σ)} {next : BacktrackPoint}
    (h : between.RestartsAt view [] kept requests later next)
    (hcurrent : between.current = explorer.current)
    (hbacklog : ∀ state, ∃ more, between.knowledge.backlog.pendingAt state =
      explorer.knowledge.backlog.pendingAt state ++ more) :
    explorer.RestartsAt view captured kept (captured.map (fun _ => .captured) ++ requests) later
      next where
  popped := by
    obtain ⟨backlog, hgrown, hpops⟩ := h.popped
    refine ⟨backlog, fun state => ?_, hpops⟩
    obtain ⟨more, hmore⟩ := hgrown state
    obtain ⟨others, hothers⟩ := hbacklog state
    exact ⟨others ++ more, by rw [hmore, hothers, List.append_assoc]⟩
  requests_eq := by
    obtain ⟨superseded, snapshot, hget, hsnapshot, heq⟩ := h.requests_eq
    refine ⟨superseded, snapshot, hcurrent ▸ hget, hsnapshot, ?_⟩
    rw [heq]
    simp
  origin := hcurrent ▸ h.origin
  released := hcurrent ▸ h.released
  announced := h.announced

/-- Gathering only adds points to those that wait. -/
private theorem Accounts.pendingAt_gathers {account : Account} (h : explorer.Accounts account)
    {stands : TransitionRef → Prop} {reference : List Event} {knowledge gathered : Knowledge}
    (hgathers : knowledge.Gathers stands reference gathered)
    (hbacklog : knowledge.backlog = explorer.knowledge.backlog) (state : StateId) :
    ∃ more, gathered.backlog.pendingAt state =
      explorer.knowledge.backlog.pendingAt state ++ more := by
  obtain ⟨taken, hledger, -⟩ := h.ledger
  obtain ⟨more, hmore, -⟩ := hgathers.ledger _ taken (hbacklog ▸ hledger)
  exact ⟨more.filter (·.state = state), by
    rw [hmore.pendingAt, hledger.pendingAt, List.filter_append]⟩

/-- The first decision of an execution goes ahead: there is nothing to learn from before it. -/
private theorem decide_of_counter_eq_zero {execution : Execution}
    (hget : explorer.knowledge.log.get? explorer.current = some execution)
    (hholds : execution.Holds) (hcounter : explorer.counter = 0) (view : HostView σ)
    (point : DecisionPoint) (event : Event) :
    explorer.decide view point event =
      ⟨(explorer.recordedIn execution view point.id event).proceeded view.state event, point,
        explorer.capture view, .ok .proceed⟩ := by
  obtain ⟨recorded, hrecorded, hnoted⟩ := recordDecision_of_holds hget hholds view point.id event
  have hprevious : (explorer.recordedIn execution view point.id event).previousPlace? = none := by
    simp [previousPlace?, recordedIn, hcounter]
  have hdepth : (explorer.recordedIn execution view point.id event).atMaxDepth = false := by
    simp [atMaxDepth, recordedIn, hcounter]
    omega
  unfold decide
  simp only [hrecorded, hnoted, completePrevious, hasNothingNew, hprevious, hdepth, Bool.or_self,
    conclude_false, List.append_nil]

/-- The decision that adopts a restart starts the announced execution and goes ahead. -/
private theorem HasAccount.choiceAdvanced_of_pending (h : explorer.HasAccount) {order : List Event}
    (hpending : explorer.pendingSchedule = some order) (view : HostView σ)
    (point : DecisionPoint) :
    let reply := explorer.choiceAdvanced view point
    reply.outcome = .ok .proceed ∧
      reply.explorer.history =
        explorer.history.push ⟨explorer.current, view.state, order⟩ ∧
      reply.explorer.counter = 1 := by
  intro reply
  obtain ⟨account, haccounts, hannounces⟩ := h
  generalize hannounced : account.announced = announced at hannounces
  cases hannounces with
  | nothing hnone => exact absurd (hnone.symm.trans hpending) (by simp)
  | @restart next execution held hreducing _ _ horder hget hfresh =>
    obtain rfl : next.schedule = order := Option.some.inj (horder.symm.trans hpending)
    have hsome : next.schedule ≠ [] :=
      (haccounts.founded next (by simp [Account.points, Account.taken, hannounced])).1
    obtain ⟨first, rest, hfirst⟩ := List.exists_cons_of_ne_nil hsome
    obtain ⟨waiting, hthere, hholds⟩ := haccounts.current
    rw [hget] at hthere
    obtain rfl := Option.some.inj hthere
    have hadopted : explorer.adoptPending = { explorer with
        pendingSchedule := none
        counter := 0
        schedule := ⟨next.schedule⟩
        visits := explorer.visits.startExecution
        ended := false } := by
      simp [adoptPending, horder]
    have hdue : explorer.adoptPending.schedule.eventAt? explorer.adoptPending.counter =
        some first := by
      simp [hadopted, Schedule.eventAt?, hfirst]
    have hreply : reply = explorer.adoptPending.decide view (point.force first) first :=
      choiceAdvanced_of_due hreducing hdue view point
    have hcurrent : explorer.adoptPending.knowledge.log.get? explorer.adoptPending.current =
        some execution := by
      rw [hadopted]
      exact hget
    have hcounter : explorer.adoptPending.counter = 0 := by rw [hadopted]
    rw [hreply, decide_of_counter_eq_zero hcurrent hholds hcounter]
    refine ⟨rfl, ?_, ?_⟩
    · simp [proceeded, recordedIn, hadopted, hfresh]
    · simp [proceeded, recordedIn, hcounter]

variable [AccessFilter φ]

/-- A call captures at most one snapshot, of a state that had none. -/
private theorem HasAccount.captures_hear (h : explorer.HasAccount) (callback : Callback σ) :
    explorer.Captures (explorer.captured callback) (explorer.hear callback).1 := by
  obtain ⟨account, haccounts, hannounces⟩ := h
  cases callback with
  | choiceAdvanced view point =>
    have hadvances := haccounts.advances hannounces view point
    simp only [captured, Callback.view?, requests, Explorer.hear]
    generalize explorer.choiceAdvanced view point = reply at hadvances ⊢
    cases hadvances with
    | counted | idle => exact .nothing rfl
    | decided _ _ _ hdecides =>
      obtain ⟨-, -, hadopted, -⟩ := explorer.adoptPending_keeps
      have hcaptures := hdecides.captures.1
      generalize reply.requests.filterMap (HostRequest.captured? view) = more at hcaptures ⊢
      cases hcaptures with
      | nothing hsame => exact .nothing (hsame.trans hadopted)
      | one hnew hkept =>
        rw [hadopted] at hnew hkept
        exact .one hnew hkept
  | pathMatched view point =>
    have hends := haccounts.ends view point
    simp only [captured, Callback.view?, requests, Explorer.hear]
    generalize (explorer.pathMatched view point).explorer = later,
      (explorer.pathMatched view point).requests = requests,
      (explorer.pathMatched view point).outcome = outcome at hends ⊢
    cases hends with
    | counted | failed => exact .nothing rfl
    | moved _ _ _ hmoves =>
      obtain ⟨hnone, hsame⟩ := hmoves.captured
      rw [hnone]
      exact .nothing hsame
  | splitAdvanced =>
    simp only [captured, Callback.view?, Explorer.hear, splitAdvanced_eq]
    split <;> exact .nothing rfl
  | _ => exact .nothing (explorer.hear_watches rfl rfl).snapshots

/-- So do all calls. -/
private theorem HasAccount.keeps_after (h : explorer.HasAccount) (hkeeps : explorer.Keeps kept)
    (callbacks : List (Callback σ)) :
    (explorer.after callbacks).Keeps (kept ++ explorer.captures callbacks) := by
  induction callbacks generalizing explorer kept with
  | nil =>
    rw [captures, List.append_nil]
    exact hkeeps
  | cons callback callbacks ih =>
    rw [captures, ← List.append_assoc]
    exact ih (h.hear callback) ((h.captures_hear callback).keeps hkeeps)

/-- A superseded execution stays so in every call. -/
private theorem HasAccount.released_hear (h : explorer.HasAccount) (callback : Callback σ)
    {id : ExecutionId} (hreleased : explorer.knowledge.log.Released id) :
    (explorer.hear callback).1.knowledge.log.Released id := by
  obtain ⟨account, haccounts, hannounces⟩ := h
  have hwatches {later : Explorer σ φ} (hlater : explorer.Watches later) :
      later.knowledge.log.Released id := by
    rcases hlater.log with hsame | ⟨position, access, hrecorded⟩
    · rwa [hsame]
    · rw [hrecorded]
      exact hreleased.modify _ fun _ hnone => hnone
  cases callback with
  | choiceAdvanced view point =>
    have hadvances := haccounts.advances hannounces view point
    simp only [Explorer.hear]
    generalize explorer.choiceAdvanced view point = reply at hadvances ⊢
    cases hadvances with
    | counted | idle => exact hreleased
    | decided _ _ _ hdecides =>
      rw [← explorer.adoptPending_keeps.1] at hreleased
      exact hdecides.released hreleased
  | pathMatched view point =>
    have hends := haccounts.ends view point
    simp only [Explorer.hear]
    generalize (explorer.pathMatched view point).explorer = later,
      (explorer.pathMatched view point).requests = requests,
      (explorer.pathMatched view point).outcome = outcome at hends ⊢
    cases hends with
    | counted => exact hreleased
    | failed _ hgathers => exact hgathers.log_eq ▸ hreleased
    | moved _ hgathers _ hmoves =>
      refine hmoves.released ?_
      exact hgathers.log_eq ▸ hreleased
  | splitAdvanced =>
    simp only [Explorer.hear, splitAdvanced_eq]
    split
    · exact (hreleased.modify explorer.current fun _ _ => rfl).add _
    · exact hreleased
  | _ => exact hwatches (explorer.hear_watches rfl rfl)

/-- And in all of them. -/
private theorem HasAccount.released_after (h : explorer.HasAccount) {id : ExecutionId}
    (hreleased : explorer.knowledge.log.Released id) (callbacks : List (Callback σ)) :
    (explorer.after callbacks).knowledge.log.Released id := by
  induction callbacks generalizing explorer with
  | nil => exact hreleased
  | cons callback callbacks ih => exact ih (h.hear callback) (h.released_hear callback hreleased)

/-- Whenever a call is answered with a restart, it restarts at a backtrack point. -/
private theorem HasAccount.restartsAt (h : explorer.HasAccount) {callback : Callback σ}
    {view : HostView σ} (hview : callback.view? = some view)
    (hrestarted : (explorer.hear callback).2 = .ok (some .restarted))
    (hkeeps : (explorer.hear callback).1.Keeps kept) :
    ∃ next, explorer.RestartsAt view (explorer.captured callback) kept (explorer.requests callback)
      (explorer.hear callback).1 next := by
  obtain ⟨account, haccounts, hannounces⟩ := h
  cases callback with
  | choiceAdvanced shown point =>
    obtain rfl : shown = view := Option.some.inj hview
    have hadvances := haccounts.advances hannounces shown point
    simp only [captured, Callback.view?, requests, Explorer.hear] at hrestarted hkeeps ⊢
    generalize explorer.choiceAdvanced shown point = reply at hadvances hrestarted hkeeps ⊢
    cases hadvances with
    | counted | idle => simp [Except.map] at hrestarted
    | decided _ _ _ hdecides =>
      obtain ⟨learnt, hlearnt⟩ := hdecides.accounts
      obtain ⟨hadopted, hcurrent, -⟩ := explorer.adoptPending_keeps
      have hgrown := (haccounts.adoptPending hannounces).pendingAt_gathers hdecides.gathers rfl
      have hconcludes := hdecides.concludes
      have hrequests := hdecides.requests_eq.trans (congrArg (· ++ _) hdecides.captures.2)
      generalize reply.requests.filterMap (HostRequest.captured? shown) = captured at hrequests ⊢
      rw [hrequests]
      generalize reply.explorer = later, reply.outcome = outcome at hconcludes hrestarted hkeeps ⊢
      cases hconcludes with
      | failed | proceeded => simp [Except.map] at hrestarted
      | @moved _ _ flow hmoves visits =>
        obtain rfl : flow = .restarted := by simpa [Except.map] using hrestarted
        obtain ⟨next, hrestarts⟩ :=
          hmoves.restartsAt hlearnt ⟨hkeeps.nodup, hkeeps.lookup⟩ visits _
        rw [hadopted] at hgrown
        exact ⟨next, hrestarts.of_gathers hcurrent hgrown⟩
  | pathMatched shown point =>
    obtain rfl : shown = view := Option.some.inj hview
    have hends := haccounts.ends shown point
    simp only [captured, Callback.view?, requests, Explorer.hear] at hrestarted hkeeps ⊢
    generalize (explorer.pathMatched shown point).explorer = later,
      (explorer.pathMatched shown point).requests = requests,
      (explorer.pathMatched shown point).outcome = outcome at hends hrestarted hkeeps ⊢
    cases hends with
    | counted | failed => simp [Except.map] at hrestarted
    | @moved _ _ _ _ flow _ hgathers hlearnt hmoves visits =>
      obtain rfl : flow = .restarted := by simpa [Except.map] using hrestarted
      obtain ⟨next, hrestarts⟩ := hmoves.restartsAt hlearnt ⟨hkeeps.nodup, hkeeps.lookup⟩ visits _
      rw [hmoves.captured.1]
      exact ⟨next, hrestarts.of_gathers rfl (haccounts.pendingAt_gathers hgathers rfl)⟩
  | _ => simp [Callback.view?] at hview

/-- Whether the calls neither ask for a decision nor start a round. -/
def onlyWatches (explorer : Explorer σ φ) : List (Callback σ) → Bool
  | [] => true
  | callback :: callbacks =>
    !callback.asksToGoOn && !explorer.startsRound callback &&
      (explorer.hear callback).1.onlyWatches callbacks

/-- While the calls only watch the host, the announced restart stays as it is. -/
private theorem after_of_onlyWatches {callbacks : List (Callback σ)}
    (hwatches : explorer.onlyWatches callbacks = true) :
    (explorer.after callbacks).pendingSchedule = explorer.pendingSchedule ∧
      (explorer.after callbacks).current = explorer.current ∧
      (explorer.after callbacks).history = explorer.history := by
  induction callbacks generalizing explorer with
  | nil => exact ⟨rfl, rfl, rfl⟩
  | cons callback callbacks ih =>
    simp only [onlyWatches, Bool.and_eq_true, Bool.not_eq_true'] at hwatches
    obtain ⟨⟨hasks, hround⟩, hrest⟩ := hwatches
    have hfirst := explorer.hear_watches hasks hround
    obtain ⟨hpending, hcurrent, hhistory⟩ := ih hrest
    exact ⟨hpending.trans hfirst.pendingSchedule, hcurrent.trans hfirst.current,
      hhistory.trans hfirst.history⟩

/-- Whatever calls a host makes, in any order and through all rounds, no snapshot is captured twice
of one state. Each restart takes one point off the backlog, the oldest at the highest state at which
one waits. The host closes the decision points of the superseded execution, returns to the first
snapshot of the point's state unless it is there, and offers the order of the point. From then on no
decision point has a position in the superseded execution. Another execution is current, which the
conflict of the point called for, and when the next call but those that only watch the host asks for
a decision, the decision starts this execution in the state of the host, with the order of the
point. -/
theorem restarts_follow_protocol (config : ExploreConfig) (filter : φ)
    (callbacks : List (Callback σ)) :
    let first := (start config filter : Explorer σ φ)
    let explorer := first.after callbacks
    ((first.captures callbacks).map Prod.fst).Nodup ∧
    ∀ callback view, callback.view? = some view →
      (explorer.hear callback).2 = .ok (some .restarted) →
      let later := (explorer.hear callback).1
      ∃ next, explorer.RestartsAt view (explorer.captured callback)
          (first.captures (callbacks ++ [callback])) (explorer.requests callback) later next ∧
        (∀ more point,
          ((later.after more).knowledge.log.get? explorer.current).bind (·.positionOf? point) =
            none) ∧
        ∀ more, later.onlyWatches more = true → ∀ view point,
          let reply := (later.after more).choiceAdvanced view point
          reply.outcome = .ok .proceed ∧
            reply.explorer.history =
              later.history.push ⟨later.current, view.state, next.schedule⟩ ∧
            reply.explorer.counter = 1 := by
  intro first explorer
  have hfirst : first.HasAccount := hasAccount_start config filter
  have hnothing : first.Keeps [] := ⟨List.nodup_nil, fun state => by simp [first, start]⟩
  have hhere : explorer.HasAccount := hfirst.after callbacks
  refine ⟨(hfirst.keeps_after hnothing callbacks).nodup, ?_⟩
  intro callback view hview hrestarted later
  have hlater : later.HasAccount := hhere.hear callback
  have hkeeps := hfirst.keeps_after hnothing (callbacks ++ [callback])
  have hafter : first.after (callbacks ++ [callback]) = later := by
    simp [Explorer.after, later, explorer]
  rw [hafter] at hkeeps
  obtain ⟨next, hrestarts⟩ := hhere.restartsAt hview hrestarted hkeeps
  refine ⟨next, hrestarts, fun more point => ?_, fun more hwatches view point => ?_⟩
  · exact (hlater.released_after hrestarts.released more).positionOf?_eq_none point
  · obtain ⟨hpending, hcurrent, hhistory⟩ := after_of_onlyWatches hwatches
    rw [← hcurrent, ← hhistory]
    exact (hlater.after more).choiceAdvanced_of_pending (hpending.trans hrestarts.announced) view
      point

/-- At the end of the path of three writes the host closes the three decision points, returns to the
second state and is offered the order that starts with the last event. -/
theorem restarts_follow_protocol_threeWrites :
    let first : Explorer Unit TrackAll := start {} TrackAll.mk
    let ended : Callback Unit := .pathMatched ⟨⟨4⟩, ()⟩ (.start ⟨4⟩ [⟨0⟩, ⟨1⟩, ⟨2⟩])
    let explorer := first.after threeWrites.dropLast
    (explorer.hear ended).2 = .ok (some .restarted) ∧
      explorer.requests ended =
        [.close ⟨1⟩, .close ⟨2⟩, .close ⟨3⟩, .restore (), .offer [⟨2⟩, ⟨0⟩, ⟨1⟩]] ∧
      ∃ next, explorer.RestartsAt ⟨⟨4⟩, ()⟩ (explorer.captured ended)
        (first.captures (threeWrites.dropLast ++ [ended])) (explorer.requests ended)
        (explorer.hear ended).1 next := by
  intro first ended explorer
  have hrestarted : (explorer.hear ended).2 = .ok (some .restarted) := by decide +kernel
  have hrequests : explorer.requests ended =
      [.close ⟨1⟩, .close ⟨2⟩, .close ⟨3⟩, .restore (), .offer [⟨2⟩, ⟨0⟩, ⟨1⟩]] := by
    decide +kernel
  obtain ⟨-, hprotocol⟩ := restarts_follow_protocol {} TrackAll.mk threeWrites.dropLast
  obtain ⟨next, hrestarts, -⟩ := hprotocol ended ⟨⟨4⟩, ()⟩ rfl hrestarted
  exact ⟨hrestarted, hrequests, next, hrestarts⟩

end Explorer

end EventOrder
