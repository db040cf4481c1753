import EventOrder.Proofs.Explorer.Calls

/-!
# Accesses belong to their events

An access is recorded at the position of the last decision, or, while a secondary decision is
running, at the position that the enclosing decision point was last mapped to. Restarts, ends of
paths, new rounds and decision points that come up again all move these positions. This file ties
them to the transitions of the execution under way: as long as no call fails, an access goes to the
transition of the event that made it, and to none when no such transition was taken.
-/

namespace EventOrder

namespace Execution

/-- A decision point took its last transition at a position. -/
def LastTakenAt (execution : Execution) (point : PointId) (position : Nat) : Prop :=
  execution.trace[position]?.bind (·.point) = some point ∧
    ∀ later, position < later → execution.trace[later]?.bind (·.point) ≠ some point

/-- Decision points stand where they took their last transitions. -/
def Charted (execution : Execution) : Prop :=
  ∀ point position, execution.positionOf? point = some position ↔
    execution.LastTakenAt point position

/-- The position of the event to which the active decision point belongs: the last one taken, or the
last one that the enclosing point of a secondary decision took. -/
def StandsAt (execution : Execution) : ActivePoint → Nat → Prop
  | .idle, _ => False
  | .event _, position => position + 1 = execution.trace.size
  | .nested enclosing, position => execution.LastTakenAt enclosing position

/-- Decision points stand nowhere before the first transition. -/
theorem charted_placeholder (origin : Option TransitionRef) (state : StateId) (event : Event) :
    (Explorer.placeholder origin state event).Charted := by
  intro point position
  simp only [LastTakenAt, Explorer.placeholder, start, push, positionOf?]
  cases position <;> simp

variable {execution : Execution} {decisions : Nat}

/-- The transitions after one more was taken. -/
private theorem Live.getElem?_take (h : execution.Live decisions) (transition : Transition)
    (position : Nat) :
    (execution.take transition).trace[position]? =
      if position = decisions then some transition else execution.trace[position]? := by
  have hfresh := h.fresh
  have hsize := h.size
  unfold Execution.take
  cases hwaits : execution.fresh with
  | true =>
    obtain rfl : decisions = 0 := by simpa [hwaits] using hfresh
    cases position with
    | zero => simp [settle, replace, hsize]
    | succ position => simp [settle, replace, hsize]
  | false =>
    have hsome : decisions ≠ 0 := by simpa [hwaits] using hfresh
    have hdecisions : execution.trace.size = decisions := by omega
    simp [push, Array.getElem?_push, hdecisions]

/-- Nothing is taken past the decisions made. -/
private theorem Live.trace_eq_none (h : execution.Live decisions) {position : Nat}
    (hposition : decisions < position) : execution.trace[position]? = none := by
  have hsize := h.size
  exact Array.getElem?_eq_none_iff.mpr (by omega)

/-- The point of a transition was last in force where this is taken. -/
private theorem Live.lastTakenAt_take (h : execution.Live decisions) {transition : Transition}
    {point : PointId} (hpoint : transition.point = some point) (position : Nat) :
    (execution.take transition).LastTakenAt point position ↔ position = decisions := by
  unfold LastTakenAt
  simp only [h.getElem?_take transition]
  constructor
  · rintro ⟨hthere, hlast⟩
    rcases Nat.lt_trichotomy position decisions with hlt | rfl | hgt
    · exact absurd (by simp [hpoint]) (hlast decisions hlt)
    · rfl
    · simp [h.trace_eq_none hgt, show position ≠ decisions by omega] at hthere
  · rintro rfl
    refine ⟨by simp [hpoint], fun later hlater => ?_⟩
    simp [h.trace_eq_none hlater, show later ≠ position by omega]

/-- The other points were last in force where they were before. -/
private theorem Charted.lastTakenAt_take_of_ne (h : execution.Charted)
    (hlive : execution.Live decisions) {transition : Transition} {point : PointId}
    (hne : transition.point ≠ some point) (position : Nat) :
    (execution.take transition).LastTakenAt point position ↔
      execution.LastTakenAt point position := by
  -- The place of the new transition was that of no point that is charted.
  have hmapped (place : Nat) (hlast : execution.LastTakenAt point place) : place < decisions :=
    hlive.mapped_lt point place ((h point place).mpr hlast)
  unfold LastTakenAt
  simp only [hlive.getElem?_take transition]
  constructor
  · rintro ⟨hthere, hlast⟩
    have hbefore : position ≠ decisions := by
      rintro rfl
      exact hne (by simpa using hthere)
    rw [if_neg hbefore] at hthere
    refine ⟨hthere, fun later hlater => ?_⟩
    by_cases hlatest : later = decisions
    · subst hlatest
      intro hheld
      have hbound := hmapped later
        ⟨hheld, fun beyond hbeyond => by simp [hlive.trace_eq_none hbeyond]⟩
      exact absurd hbound (Nat.lt_irrefl _)
    · simpa [hlatest] using hlast later hlater
  · rintro ⟨hthere, hlast⟩
    have hlt := hmapped position ⟨hthere, hlast⟩
    refine ⟨by rwa [if_neg (by omega)], fun later hlater => ?_⟩
    split
    · exact hne
    · exact hlast later hlater

/-- A decision point that takes a transition stands there from then on. -/
theorem Charted.take_mapPoint (h : execution.Charted) (hlive : execution.Live decisions)
    {transition : Transition} {point : PointId} (hpoint : transition.point = some point) :
    ((execution.take transition).mapPoint point decisions).Charted := by
  intro other position
  have htrace : ((execution.take transition).mapPoint point decisions).LastTakenAt other position ↔
      (execution.take transition).LastTakenAt other position := Iff.rfl
  rw [htrace]
  by_cases hother : other = point
  · subst hother
    rw [(hlive.toMade.take transition).positionOf?_mapPoint other decisions,
      hlive.lastTakenAt_take hpoint, Option.some.injEq]
    exact eq_comm
  · have hsame : ((execution.take transition).mapPoint point decisions).positionOf? other =
        execution.positionOf? other := by
      simp only [positionOf?, mapPoint, positions_take]
      cases execution.positions with
      | none => rfl
      | some positions => simp [Std.ExtTreeMap.getElem?_insert, Ne.symm hother]
    have hne : transition.point ≠ some other := by
      rw [hpoint]
      exact fun heq => hother (Option.some.inj heq).symm
    rw [hsame, h other position]
    exact (h.lastTakenAt_take_of_ne hlive hne position).symm

/-- Recording an access moves no decision point. -/
private theorem Charted.recordAccess (h : execution.Charted) (position : Nat) (access : Access) :
    (execution.recordAccess position access).Charted := h

end Execution

namespace Explorer

variable {σ φ : Type} {explorer : Explorer σ φ}

/-- An access under the active decision point belongs to the event at a place: the place is one of
the execution under way, which has made a decision and has not ended. -/
structure AttributesTo (explorer : Explorer σ φ) (active : ActivePoint) (place : TransitionRef) :
    Prop where
  /-- There is something to reduce. -/
  reducing : explorer.reducing = true
  /-- The execution has not ended. -/
  underway : explorer.ended = false
  /-- The place is one of the current execution. -/
  current : place.execution = explorer.current
  /-- It is the last one, or the last one of the enclosing point. -/
  position : ∃ execution, explorer.knowledge.log.get? explorer.current = some execution ∧
    execution.fresh = false ∧ execution.StandsAt active place.position

/-- The current execution can go on, and its decision points stand where they took their last
transitions. -/
def GoesOn (explorer : Explorer σ φ) : Prop :=
  ∃ execution, explorer.knowledge.log.get? explorer.current = some execution ∧
    execution.Live explorer.decisions ∧ execution.Charted

/-- What an explorer keeps up as long as no call fails. -/
structure Attributing (explorer : Explorer σ φ) : Prop where
  /-- All points that were admitted are accounted for. -/
  hasAccount : explorer.HasAccount
  /-- The execution under way can go on, and so can one that is announced. -/
  goesOn : explorer.ended = false ∨ explorer.pendingSchedule.isSome → explorer.GoesOn

/-- An explorer attributes accesses right before its first call. -/
theorem attributing_start (config : ExploreConfig) (filter : φ) :
    (start config filter : Explorer σ φ).Attributing where
  hasAccount := hasAccount_start config filter
  goesOn _ := ⟨_, rfl, Execution.live_placeholder none .split ⟨0⟩,
    Execution.charted_placeholder none .split ⟨0⟩⟩

/-- The execution under way has made the decisions that were counted. -/
theorem Attributing.underway (h : explorer.Attributing) (hended : explorer.ended = false) :
    ∃ execution, explorer.knowledge.log.get? explorer.current = some execution ∧
      execution.Live explorer.counter ∧ execution.Charted := by
  obtain ⟨execution, hget, hlive, hcharted⟩ := h.goesOn (Or.inl hended)
  exact ⟨execution, hget, by simpa [decisions, hended] using hlive, hcharted⟩

/-- Moving on leaves an execution that can go on, if it announces one. -/
private theorem MovesOn.goesOn {view : HostView σ} {later : Explorer σ φ}
    {requests : List (HostRequest σ)} {flow : Flow} (h : explorer.MovesOn view later requests flow)
    (hgoes : explorer.pendingSchedule.isSome → explorer.ended = true ∧ explorer.GoesOn)
    (visits : Visits) (counter : Nat) :
    later.ended = false ∨ later.pendingSchedule.isSome →
      ({ later with visits, counter } : Explorer σ φ).GoesOn := by
  cases h with
  | finished =>
    rintro (hended | hpending)
    · exact absurd hended (by simp [endExecution])
    · obtain ⟨hended, execution, hget, hlive, hcharted⟩ := hgoes hpending
      exact ⟨execution, hget, by simpa [decisions, hended, endExecution] using hlive, hcharted⟩
  | @restarted next rest snapshot =>
    intro _
    refine ⟨placeholder (some next.conflict) next.state (next.first?.getD ⟨0⟩), ?_,
      Execution.live_placeholder _ _ _, Execution.charted_placeholder _ _ _⟩
    simp [announcing, ExecutionLog.get?_add, next_modify]

/-- A decision that succeeds leaves an execution that can go on, unless it has ended. -/
private theorem Decides.goesOn {view : HostView σ} {point : PointId} {event : Event}
    {reply : Reply σ φ} {execution : Execution} {knowledge : Knowledge}
    {requests : List (HostRequest σ)}
    (h : explorer.Decides view point event reply execution knowledge requests)
    (hpending : explorer.pendingSchedule = none)
    (hgoes : explorer.ended = false → explorer.GoesOn) (hok : reply.outcome.isOk = true) :
    reply.explorer.ended = false ∨ reply.explorer.pendingSchedule.isSome →
      reply.explorer.GoesOn := by
  have hlog := h.gathers.log_eq
  have hconcludes := h.concludes
  generalize reply.explorer = later, reply.outcome = outcome at hconcludes hok ⊢
  cases hconcludes with
  | failed => exact absurd hok (by simp [Except.isOk, Except.toBool])
  | moved hmoves visits =>
    refine hmoves.goesOn (fun hsome => ?_) visits _
    exact absurd hsome (by simp [learnt, recordedIn, hpending])
  | proceeded =>
    intro hstill
    have hunderway : explorer.ended = false := by
      simpa [proceeded, learnt, recordedIn, hpending] using hstill
    obtain ⟨current, hget, hlive, hcharted⟩ := hgoes hunderway
    obtain rfl : execution = current := Option.some.inj (h.get?.symm.trans hget)
    have hdecisions : explorer.decisions = explorer.counter := by simp [decisions, hunderway]
    rw [hdecisions] at hlive
    have hthere := get?_recordedIn hget view point event
    rw [hlive.decisions_eq, ← hlog] at hthere
    refine ⟨_, hthere, ?_, hcharted.take_mapPoint hlive rfl⟩
    simpa [decisions, proceeded, learnt, recordedIn, hunderway] using
      hlive.take_mapPoint ⟨event, view.state, some point⟩ point

/-- Once a restart is adopted its execution can go on. -/
private theorem Attributing.adoptPending (h : explorer.Attributing) :
    explorer.adoptPending.pendingSchedule = none ∧
      (explorer.adoptPending.ended = false → explorer.adoptPending.GoesOn) := by
  unfold Explorer.adoptPending
  cases hpending : explorer.pendingSchedule with
  | none => exact ⟨hpending, fun hended => h.goesOn (Or.inl hended)⟩
  | some order =>
    have hsome : explorer.pendingSchedule.isSome := by simp [hpending]
    obtain ⟨execution, hget, hlive, hcharted⟩ := h.goesOn (Or.inr hsome)
    have hnone : explorer.decisions = 0 := by
      simp [decisions, (h.hasAccount.ended_of_pending hsome).1]
    exact ⟨rfl, fun _ => ⟨execution, hget, hnone ▸ hlive, hcharted⟩⟩

/-- The position to which an access belongs is the one that the explorer looks up, once the
execution has made a decision. -/
private theorem accessPosition?_eq_some_iff {active : ActivePoint} {execution : Execution}
    (hlive : execution.Live explorer.counter) (hcharted : execution.Charted)
    (hcounter : explorer.counter ≠ 0) {position : Nat} :
    explorer.accessPosition? execution active = some position ↔
      execution.StandsAt active position := by
  have hsize := hlive.size
  cases active with
  | idle => simp [accessPosition?, Execution.StandsAt]
  | event point =>
    have hpositive := Nat.pos_of_ne_zero hcounter
    simp only [accessPosition?, Execution.StandsAt, Option.some.injEq]
    omega
  | nested enclosing => exact hcharted enclosing position

/-- The place to which an access belongs is one at which a transition was taken. -/
theorem AttributesTo.exists_taken {active : ActivePoint} {place : TransitionRef}
    (h : explorer.AttributesTo active place) :
    ∃ transition, explorer.knowledge.log.taken? place = some transition := by
  obtain ⟨execution, hget, hgoes, hstands⟩ := h.position
  have hbound : place.position < execution.trace.size := by
    cases active with
    | idle => exact hstands.elim
    | event point => exact Nat.lt_of_succ_le (Nat.le_of_eq hstands)
    | nested enclosing =>
      obtain ⟨transition, hthere, -⟩ := Option.bind_eq_some_iff.mp hstands.1
      exact (Array.getElem?_eq_some_iff.mp hthere).1
  rw [← h.current] at hget
  exact ⟨execution.trace[place.position], by
    rw [ExecutionLog.taken?_of_get? hget]; simp [hgoes, hbound]⟩

/-- The enclosing point of a secondary decision stands at the place to which accesses belong. -/
theorem Attributing.attributesTo_nested (h : explorer.Attributing)
    (hreducing : explorer.reducing = true) (hended : explorer.ended = false) (point : PointId)
    (position : Nat)
    (hposition : ((explorer.knowledge.log.get? explorer.current).bind (·.positionOf? point)) =
      some position) :
    explorer.AttributesTo (.nested point) ⟨explorer.current, position⟩ := by
  obtain ⟨execution, hget, hlive, hcharted⟩ := h.underway hended
  rw [hget] at hposition
  have hbound := hlive.mapped_lt point position hposition
  have hgoes : execution.fresh = false := by
    simpa [hlive.fresh] using Nat.ne_of_gt (Nat.lt_of_le_of_lt (Nat.zero_le _) hbound)
  exact ⟨hreducing, hended, rfl, execution, hget, hgoes, (hcharted point position).mp hposition⟩

section Observing

variable [AccessFilter φ] {active : ActivePoint} {place : TransitionRef}

/-- An access that belongs to an event is recorded there if the filter tracks it. -/
theorem Attributing.accessObserved_of_attributesTo (h : explorer.Attributing)
    (hplace : explorer.AttributesTo active place) (access : Access) :
    explorer.accessObserved active (some access) =
      if (AccessFilter.consider explorer.filter access).1 then
        ({ explorer with filter := (AccessFilter.consider explorer.filter access).2 } :
          Explorer σ φ).modifyCurrent (·.recordAccess place.position access)
      else { explorer with filter := (AccessFilter.consider explorer.filter access).2 } := by
  obtain ⟨execution, hget, hgoes, hstands⟩ := hplace.position
  obtain ⟨live, hthere, hlive, hcharted⟩ := h.underway hplace.underway
  obtain rfl : execution = live := Option.some.inj (hget.symm.trans hthere)
  have hcounter : explorer.counter ≠ 0 := by simpa [hgoes] using hlive.fresh
  have hposition := (accessPosition?_eq_some_iff hlive hcharted hcounter).mpr hstands
  simp [accessObserved, hplace.reducing, hplace.underway, hcounter, hget, hposition]

/-- An access that belongs to no event is not recorded. -/
theorem Attributing.accessObserved_of_not_attributesTo (h : explorer.Attributing)
    (hnowhere : ∀ place, ¬explorer.AttributesTo active place) (access : Option Access) :
    explorer.accessObserved active access = explorer := by
  unfold accessObserved
  split
  · rfl
  · rename_i hgoes
    simp only [Bool.or_eq_true, Bool.not_eq_true', decide_eq_true_eq, not_or, Bool.not_eq_true,
      Bool.not_eq_false] at hgoes
    obtain ⟨⟨hreducing, hended⟩, hcounter⟩ := hgoes
    obtain ⟨execution, hget, hlive, hcharted⟩ := h.underway hended
    have hposition : explorer.accessPosition? execution active = none := by
      rw [Option.eq_none_iff_forall_ne_some]
      intro position hposition
      refine hnowhere ⟨explorer.current, position⟩ ⟨hreducing, hended, rfl, execution, hget, ?_,
        (accessPosition?_eq_some_iff hlive hcharted hcounter).mp hposition⟩
      simpa using hlive.fresh.trans (decide_eq_false hcounter)
    cases access with
    | none => rfl
    | some access => simp [hget, hposition]

/-- Observing an access keeps the execution under way. -/
private theorem Attributing.goesOn_accessObserved (h : explorer.Attributing) (active : ActivePoint)
    (access : Option Access) :
    (explorer.accessObserved active access).ended = false ∨
        (explorer.accessObserved active access).pendingSchedule.isSome →
      (explorer.accessObserved active access).GoesOn := by
  by_cases hplace : ∃ place, explorer.AttributesTo active place
  · obtain ⟨place, hplace⟩ := hplace
    cases access with
    | none =>
      have hsame : explorer.accessObserved active none = explorer := by simp [accessObserved]
      rw [hsame]
      exact h.goesOn
    | some access =>
      obtain ⟨execution, hget, hlive, hcharted⟩ := h.underway hplace.underway
      obtain ⟨transition, htaken⟩ := hplace.exists_taken
      rw [h.accessObserved_of_attributesTo hplace]
      split
      · intro _
        refine ⟨execution.recordAccess place.position access,
          by simp [modifyCurrent, ExecutionLog.get?_modify, hget], ?_, hcharted.recordAccess _ _⟩
        simpa [decisions, modifyCurrent, hplace.underway] using
          hlive.recordAccess
            (ExecutionLog.lt_of_taken? (hplace.current ▸ hget) hlive.toMade htaken) access
      · exact h.goesOn
  · rw [h.accessObserved_of_not_attributesTo (not_exists.mp hplace)]
    exact h.goesOn

omit [AccessFilter φ] in
/-- An answer is an error when there is no flow to answer. -/
private theorem isOk_map {outcome : Except ExplorationError Flow} :
    (outcome.map some).isOk = outcome.isOk := by
  cases outcome <;> rfl

/-- Every call that succeeds keeps accesses attributed right. -/
theorem Attributing.hear (h : explorer.Attributing) (callback : Callback σ)
    (hok : (explorer.hear callback).2.isOk = true) : (explorer.hear callback).1.Attributing where
  hasAccount := h.hasAccount.hear callback
  goesOn := by
    obtain ⟨account, haccounts, hannounces⟩ := h.hasAccount
    cases callback with
    | searchStarted | stateRestored | searchFinished => exact h.goesOn
    | pointRegistered point =>
      obtain ⟨reducing, offersSeen, schedule, lastEvent, events, hregistered⟩ :=
        explorer.pointRegistered_same point
      simp only [Explorer.hear, hregistered]
      exact h.goesOn
    | stateEntered state | stateLeft state =>
      obtain ⟨predecessors, visits, hentered⟩ := explorer.stateEntered_same state
      simp only [Explorer.hear, hentered]
      exact h.goesOn
    | accessObserved active access => exact h.goesOn_accessObserved active access
    | choiceAdvanced view point =>
      simp only [Explorer.hear, isOk_map] at hok ⊢
      have hadvances := haccounts.advances hannounces view point
      generalize explorer.choiceAdvanced view point = reply at hadvances hok ⊢
      cases hadvances with
      | counted | idle => exact h.goesOn
      | decided _ _ _ hdecides =>
        obtain ⟨hpending, hgoes⟩ := h.adoptPending
        exact hdecides.goesOn hpending hgoes hok
    | pathMatched view point =>
      simp only [Explorer.hear, isOk_map] at hok ⊢
      have hends := haccounts.ends view point
      generalize (explorer.pathMatched view point).explorer = later,
        (explorer.pathMatched view point).requests = requests,
        (explorer.pathMatched view point).outcome = outcome at hends hok ⊢
      cases hends with
      | counted => exact h.goesOn
      | failed => exact absurd hok (by simp [Except.isOk, Except.toBool])
      | moved _ hgathers _ hmoves visits =>
        refine hmoves.goesOn (fun hsome => ?_) visits _
        refine ⟨(h.hasAccount.ended_of_pending hsome).1, ?_⟩
        obtain ⟨execution, hget, hrest⟩ := h.goesOn (Or.inr hsome)
        exact ⟨execution, (congrArg (·.get? explorer.current) hgathers.log_eq).trans hget, hrest⟩
    | splitAdvanced =>
      simp only [Explorer.hear, splitAdvanced_eq]
      split
      · intro _
        refine ⟨placeholder none .split ⟨0⟩, ?_, Execution.live_placeholder _ _ _,
          Execution.charted_placeholder _ _ _⟩
        simp [renewed, ExecutionLog.get?_add, next_modify]
      · exact h.goesOn

/-- Every call that succeeds keeps accesses attributed right, and so do all of them. -/
theorem Attributing.after (h : explorer.Attributing) {callbacks : List (Callback σ)}
    (hok : explorer.succeeds callbacks = true) : (explorer.after callbacks).Attributing :=
  after_induction (fun _ callback h hok => h.hear callback hok) h hok

end Observing

/-- No execution is under way in which a decision was made. -/
def Rests (explorer : Explorer σ φ) : Prop := explorer.ended = true ∨ explorer.counter = 0

/-- A decision enters the history when it is the first of its execution, and an execution that has
ended is not resumed. -/
private theorem Decides.history_size {view : HostView σ} {point : PointId} {event : Event}
    {reply : Reply σ φ} {execution : Execution} {knowledge : Knowledge}
    {requests : List (HostRequest σ)}
    (h : explorer.Decides view point event reply execution knowledge requests) :
    reply.explorer.history.size = explorer.history.size + execution.fresh.toNat ∧
      (explorer.ended = true → reply.explorer.ended = true) := by
  have hconcludes := h.concludes
  generalize reply.explorer = later, reply.outcome = outcome at hconcludes ⊢
  have hhistory : (explorer.learnt execution view point event knowledge).history.size =
      explorer.history.size + execution.fresh.toNat := by
    simp only [learnt, recordedIn]
    split <;> rename_i hfresh <;> simp [hfresh]
  cases hconcludes with
  | failed | proceeded => exact ⟨hhistory, id⟩
  | moved hmoves =>
    cases hmoves with
    | finished | restarted => exact ⟨hhistory, fun _ => rfl⟩

/-- Moving on leaves the history, and no execution is under way then. -/
private theorem MovesOn.rests {view : HostView σ} {later : Explorer σ φ}
    {requests : List (HostRequest σ)} {flow : Flow}
    (h : explorer.MovesOn view later requests flow) :
    later.history = explorer.history ∧ later.ended = true := by
  cases h with
  | finished | restarted => exact ⟨rfl, rfl⟩

/-- Later the history is no shorter, and as long as no execution has entered it, no decision was
made in one that is under way. -/
structure KeepsResting (explorer later : Explorer σ φ) : Prop where
  /-- The history is no shorter. -/
  history : explorer.history.size ≤ later.history.size
  /-- No decision is made without the history growing. -/
  rests : explorer.Rests → later.history.size = explorer.history.size → later.Rests

/-- Nothing happens while the history and the count of decisions stay as they are. -/
private theorem KeepsResting.of_same {later : Explorer σ φ}
    (hhistory : later.history = explorer.history) (hended : later.ended = explorer.ended)
    (hcounter : later.counter = explorer.counter) : explorer.KeepsResting later where
  history := Nat.le_of_eq (congrArg Array.size hhistory.symm)
  rests hrests _ := hrests.imp hended.trans hcounter.trans

/-- So it is when a call only watches the host. -/
private theorem KeepsResting.of_watches {later : Explorer σ φ} (h : explorer.Watches later) :
    explorer.KeepsResting later := .of_same h.history h.ended h.counter

/-- What follows later adds up. -/
private theorem KeepsResting.trans {later last : Explorer σ φ} (h : explorer.KeepsResting later)
    (hthen : later.KeepsResting last) : explorer.KeepsResting last where
  history := Nat.le_trans h.history hthen.history
  rests hrests hsame := by
    have hfirst := h.history
    have hsecond := hthen.history
    have hstill : later.history.size = explorer.history.size := by omega
    exact hthen.rests (h.rests hrests hstill) (by omega)

/-- When no decision was made in an execution under way, the next one that is made is the first of
its execution. -/
private theorem Attributing.keepsResting_choiceAdvanced (h : explorer.Attributing)
    (view : HostView σ) (point : DecisionPoint) :
    explorer.KeepsResting (explorer.choiceAdvanced view point).explorer := by
  obtain ⟨account, haccounts, hannounces⟩ := h.hasAccount
  have hadvances := haccounts.advances hannounces view point
  generalize explorer.choiceAdvanced view point = reply at hadvances ⊢
  cases hadvances with
  | counted | idle => exact .of_same rfl rfl rfl
  | decided _ _ _ hdecides =>
    obtain ⟨hsize, hover⟩ := hdecides.history_size
    rw [explorer.adoptPending_keeps.2.2.2] at hsize
    refine ⟨by omega, fun hrests hsame => ?_⟩
    cases hended : explorer.adoptPending.ended with
    | true => exact Or.inl (hover hended)
    | false =>
      have hcounter : explorer.adoptPending.counter = 0 := by
        unfold Explorer.adoptPending at hended ⊢
        split at hended
        · exact hrests.resolve_left (by simp [hended])
        · rfl
      obtain ⟨execution, hget, hlive, -⟩ := h.adoptPending.2 hended
      rw [Option.some.inj (hdecides.get?.symm.trans hget)] at hsize
      have hfresh : execution.fresh = true := by
        simpa [decisions, hended, hcounter] using hlive.fresh
      rw [hfresh, Bool.toNat_true] at hsize
      omega

variable [AccessFilter φ]

/-- While no execution enters the history, no call makes a decision in an execution under way. -/
private theorem Attributing.keepsResting_hear (h : explorer.Attributing) (callback : Callback σ) :
    explorer.KeepsResting (explorer.hear callback).1 := by
  cases callback with
  | choiceAdvanced view point => exact h.keepsResting_choiceAdvanced view point
  | pathMatched view point =>
    obtain ⟨account, haccounts, -⟩ := h.hasAccount
    have hends := haccounts.ends view point
    simp only [Explorer.hear]
    generalize (explorer.pathMatched view point).explorer = later,
      (explorer.pathMatched view point).requests = requests,
      (explorer.pathMatched view point).outcome = outcome at hends ⊢
    cases hends with
    | counted | failed => exact .of_same rfl rfl rfl
    | moved _ _ _ hmoves =>
      obtain ⟨hhistory, hended⟩ := hmoves.rests
      exact ⟨Nat.le_of_eq (congrArg Array.size hhistory.symm), fun _ _ => Or.inl hended⟩
  | splitAdvanced =>
    simp only [Explorer.hear, splitAdvanced_eq]
    split
    · exact ⟨Nat.le_refl _, fun _ _ => Or.inr rfl⟩
    · exact .of_same rfl rfl rfl
  | _ => exact .of_watches (explorer.hear_watches rfl rfl)

/-- Nor do all of them. -/
private theorem Attributing.keepsResting_after (h : explorer.Attributing)
    {callbacks : List (Callback σ)} (hok : explorer.succeeds callbacks = true) :
    explorer.KeepsResting (explorer.after callbacks) := by
  induction callbacks generalizing explorer with
  | nil => exact .of_same rfl rfl rfl
  | cons callback callbacks ih =>
    obtain ⟨hfirst, hrest⟩ := Bool.and_eq_true_iff.mp hok
    exact (h.keepsResting_hear callback).trans (ih (h.hear callback hfirst) hrest)

/-- Whether a call ends the execution under way: the host is told so, or it starts a new round. -/
def endsExecution (explorer : Explorer σ φ) (callback : Callback σ) : Bool :=
  explorer.startsRound callback ||
    match (explorer.hear callback).2 with
    | .ok (some .restarted) | .ok (some .finished) => true
    | _ => false

/-- No decision was made in an execution under way once an execution has ended. -/
private theorem HasAccount.rests_of_endsExecution (h : explorer.HasAccount)
    {callback : Callback σ} (hends : explorer.endsExecution callback = true) :
    (explorer.hear callback).1.Rests := by
  obtain ⟨account, haccounts, hannounces⟩ := h
  cases callback with
  | choiceAdvanced view point =>
    have hadvances := haccounts.advances hannounces view point
    simp only [endsExecution, startsRound, Bool.false_or, Explorer.hear] at hends ⊢
    generalize explorer.choiceAdvanced view point = reply at hadvances hends ⊢
    cases hadvances with
    | counted | idle => simp [Except.map] at hends
    | decided _ _ _ hdecides =>
      have hconcludes := hdecides.concludes
      generalize reply.explorer = later, reply.outcome = outcome at hconcludes hends ⊢
      cases hconcludes with
      | failed | proceeded => simp [Except.map] at hends
      | moved hmoves => exact Or.inl hmoves.rests.2
  | pathMatched view point =>
    have hpath := haccounts.ends view point
    simp only [endsExecution, startsRound, Bool.false_or, Explorer.hear] at hends ⊢
    generalize (explorer.pathMatched view point).explorer = later,
      (explorer.pathMatched view point).requests = requests,
      (explorer.pathMatched view point).outcome = outcome at hpath hends ⊢
    cases hpath with
    | counted | failed => simp [Except.map] at hends
    | moved _ _ _ hmoves => exact Or.inl hmoves.rests.2
  | splitAdvanced =>
    have hstarts : (explorer.reducing && explorer.splitPassed) = true := by
      simpa [endsExecution, startsRound, Explorer.hear] using hends
    simp only [Explorer.hear, splitAdvanced_eq, hstarts, if_true]
    exact Or.inr rfl
  | searchFinished directory =>
    simp only [endsExecution, startsRound, Bool.false_or, Explorer.hear] at hends
    cases hsummary : ((explorer.finish : StateM Directory _) directory).1 <;>
      simp [hsummary, Except.map] at hends
  | _ => simp [endsExecution, startsRound, Explorer.hear] at hends

omit [AccessFilter φ] in
/-- Recording an access in the current execution changes the footprint at its place only. -/
private theorem footprint?_modifyCurrent_recordAccess (filter : φ) {place : TransitionRef}
    {execution : Execution}
    (hget : explorer.knowledge.log.get? explorer.current = some execution)
    (hcurrent : place.execution = explorer.current) (access : Access) (other : TransitionRef) :
    (({ explorer with filter } : Explorer σ φ).modifyCurrent
        (·.recordAccess place.position access)).knowledge.log.footprint? other =
      if other = place then
        some (((explorer.knowledge.log.footprint? place).getD .empty).record access)
      else explorer.knowledge.log.footprint? other := by
  obtain ⟨id, position⟩ := other
  obtain ⟨placeId, placePosition⟩ := place
  obtain rfl : placeId = explorer.current := hcurrent
  simp only [modifyCurrent, ExecutionLog.footprint?, ExecutionLog.get?_modify,
    TransitionRef.mk.injEq]
  by_cases hid : explorer.current = id
  · subst hid
    by_cases hposition : placePosition = position
    · subst hposition
      simp [hget, Execution.recordAccess, Execution.setFootprint, Execution.footprintAt]
    · simp [hget, Execution.recordAccess, Execution.setFootprint, Std.ExtTreeMap.getElem?_insert,
        hposition, Ne.symm hposition]
  · simp [hid, Ne.symm hid]

/-- Whatever calls a host makes, in any order, as long as none fails: an access is recorded, if the
filter tracks it, at the place of the event that it belongs to, which holds a transition that was
taken, and nowhere else, and nothing else changes. When it belongs to no event nothing changes. So
it is before the first decision of an execution, and from the end of an execution until another one
makes its first decision and so enters the history. -/
theorem accesses_belong_to_events (config : ExploreConfig) (filter : φ)
    (callbacks : List (Callback σ))
    (hok : (start config filter : Explorer σ φ).succeeds callbacks = true)
    (active : ActivePoint) (access : Option Access) :
    let first := (start config filter : Explorer σ φ)
    let explorer := first.after callbacks
    let later := explorer.accessObserved active access
    (∀ place, explorer.AttributesTo active place →
      (∃ transition, explorer.knowledge.log.taken? place = some transition) ∧
        ∀ recorded, access = some recorded →
          let answer := AccessFilter.consider explorer.filter recorded
          (later = if answer.1 then
              ({ explorer with filter := answer.2 } : Explorer σ φ).modifyCurrent
                (·.recordAccess place.position recorded)
            else { explorer with filter := answer.2 }) ∧
            ∀ other, later.knowledge.log.footprint? other =
              if answer.1 ∧ other = place then
                some (((explorer.knowledge.log.footprint? place).getD .empty).record recorded)
              else explorer.knowledge.log.footprint? other) ∧
    (access = none ∨ (∀ place, ¬explorer.AttributesTo active place) → later = explorer) ∧
    ∀ before between, callbacks = before ++ between →
      (before = [] ∨ ∃ earlier last, before = earlier ++ [last] ∧
        (first.after earlier).endsExecution last = true) →
      explorer.history.size = (first.after before).history.size → later = explorer := by
  intro first explorer later
  have hattributing : explorer.Attributing := (attributing_start config filter).after hok
  refine ⟨fun place hplace => ⟨hplace.exists_taken, fun recorded hrecorded => ?_⟩, ?_, ?_⟩
  · subst hrecorded
    have hlater := hattributing.accessObserved_of_attributesTo hplace recorded
    refine ⟨hlater, fun other => ?_⟩
    obtain ⟨execution, hget, -⟩ := hplace.position
    rw [show later = _ from hlater]
    cases (AccessFilter.consider explorer.filter recorded).1 with
    | true =>
      simp only [if_true, true_and]
      exact footprint?_modifyCurrent_recordAccess _ hget hplace.current recorded other
    | false => simp
  · rintro (hnone | hnowhere)
    · simp only [later, hnone, accessObserved]
      split <;> rfl
    · exact hattributing.accessObserved_of_not_attributesTo hnowhere access
  · intro before between hcallbacks hpauses hhistory
    subst hcallbacks
    rw [succeeds_append, Bool.and_eq_true] at hok
    obtain ⟨hbefore, hbetween⟩ := hok
    have hthen : (first.after before).Attributing := (attributing_start config filter).after hbefore
    have hrests : (first.after before).Rests := by
      rcases hpauses with rfl | ⟨earlier, last, rfl, hends⟩
      · exact Or.inr rfl
      · have hearlier : (first.after earlier).HasAccount := by
          rw [succeeds_append, Bool.and_eq_true] at hbefore
          exact ((attributing_start config filter).after hbefore.1).hasAccount
        have hlast : first.after (earlier ++ [last]) = ((first.after earlier).hear last).1 := by
          simp [after]
        rw [hlast]
        exact hearlier.rests_of_endsExecution hends
    have hafter : explorer = (first.after before).after between := List.foldl_append ..
    have hstill : explorer.Rests := by
      rw [hafter] at hhistory ⊢
      exact (hthen.keepsResting_after hbetween).rests hrests hhistory
    simp only [later, accessObserved]
    rcases hstill with hended | hcounter
    · simp [hended]
    · simp [hcounter]

/-- Two decisions are made, and an instruction runs inside a secondary decision of the first. -/
def nestedAfterTwo : List (Callback Unit) :=
  let point (number : Nat) : DecisionPoint := .start ⟨number⟩ [⟨0⟩, ⟨1⟩]
  [.pointRegistered (point 7), .choiceAdvanced ⟨⟨1⟩, ()⟩ (point 7), .stateEntered ⟨2⟩,
    .choiceAdvanced ⟨⟨2⟩, ()⟩ (point 8)]

/-- The access is recorded at the first decision, not at the last one. -/
theorem accesses_belong_to_events_nestedAfterTwo :
    let first : Explorer Unit TrackAll := start {} TrackAll.mk
    let explorer := first.after nestedAfterTwo
    let written : Access := ⟨.write, "light", ⟨0⟩⟩
    first.succeeds nestedAfterTwo = true ∧
      explorer.AttributesTo (.nested ⟨7⟩) ⟨explorer.current, 0⟩ ∧
      (∃ transition, explorer.knowledge.log.taken? ⟨explorer.current, 0⟩ = some transition) ∧
      explorer.accessObserved (.nested ⟨7⟩) (some written) =
        explorer.modifyCurrent (·.recordAccess 0 written) := by
  have hok : (start {} TrackAll.mk : Explorer Unit TrackAll).succeeds nestedAfterTwo = true := by
    decide +kernel
  have hplace := ((attributing_start {} TrackAll.mk).after hok).attributesTo_nested
    (by decide +kernel) (by decide +kernel) ⟨7⟩ 0 (by decide +kernel)
  obtain ⟨htaken, hrecords⟩ := (accesses_belong_to_events {} TrackAll.mk nestedAfterTwo hok
    (.nested ⟨7⟩) (some ⟨.write, "light", ⟨0⟩⟩)).1 _ hplace
  exact ⟨hok, hplace, htaken, (hrecords _ rfl).1⟩

end Explorer

end EventOrder
