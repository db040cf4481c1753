import EventOrder.Proofs.Explorer.Observing
import EventOrder.Proofs.Explorer.Regular
import EventOrder.Proofs.Explorer.Steps

/-!
# The fair order that is forced

Whatever events the host brings up, the explorer forces those of one order in turn. Orders come from
the offers of the host or from the backlog, where they are earlier orders with one event moved to
the front; so as long as the host offers some events and none of them twice, every execution is fair
to all of them.
-/

namespace EventOrder

namespace Explorer

variable {σ φ : Type} {explorer later : Explorer σ φ}

/-- What an explorer keeps up so that every order it forces is fair; `finished` says whether the
host was told in this round that no order is left to be tried, `opened` whether it opened a decision
point in this round. -/
structure Fair (explorer : Explorer σ φ) (finished opened : Bool) : Prop
    extends explorer.Poised finished, explorer.Regular where
  /-- There are events to reorder. -/
  reducing : explorer.reducing = true
  /-- Once nothing is left, nothing waits and nothing was recorded at the last place. -/
  exhausted : finished = true → explorer.knowledge.backlog.pop? = none ∧
    ∀ position, explorer.counter ≤ position + 1 →
      explorer.knowledge.log.footprint? ⟨explorer.current, position⟩ = none
  /-- A restart is announced with an order that can be followed. -/
  announced : ∀ order, explorer.pendingSchedule = some order → Schedule.IsRound order
  /-- An opened decision point offers events. -/
  offers : opened = true → finished = false → explorer.pendingSchedule = none →
    explorer.schedule.order ≠ []

/-- An explorer is fair before its first call. -/
theorem fair_start {config : ExploreConfig} (hreduction : config.stateReduction = true)
    (filter : φ) : (start config filter : Explorer σ φ).Fair false false where
  toPoised := poised_start config filter
  distinct := List.nodup_nil
  waiting := ⟨[], [], Backlog.ledger_empty, by simp⟩
  listed place transition htaken := absurd htaken (by simp [taken?_start])
  follows start hstart := by simp [Explorer.start] at hstart
  current start hstart := by simp [Explorer.start] at hstart
  reducing := hreduction
  exhausted := by simp
  announced order horder := by simp [Explorer.start] at horder
  offers := by simp

variable {finished opened : Bool}

/-- A decision point that offers events lets the explorer reduce, and adopts its offer unless the
execution has ended. -/
private theorem pointRegistered_eq (hreducing : explorer.reducing = true) {point : DecisionPoint}
    (hoffered : point.offered ≠ []) :
    (explorer.pointRegistered point).1 =
      if explorer.ended then { explorer with offersSeen := true }
      else ({ explorer with offersSeen := true } : Explorer σ φ).adoptOffer point.offered := by
  have hsettled : (if explorer.offersSeen then explorer else { explorer with
      offersSeen := true, reducing := explorer.reducing && !point.offered.isEmpty }) =
        { explorer with offersSeen := true } := by
    cases hseen : explorer.offersSeen with
    | true => simp [← hseen]
    | false => simp [hreducing, hoffered]
  unfold pointRegistered
  simp only [hsettled]
  simp only [hreducing, Bool.not_true, Bool.false_eq_true, if_false]
  cases explorer.ended with
  | true => rfl
  | false =>
    simp only [Bool.false_eq_true, if_false]
    split <;> rfl

/-- Opening a decision point that offers some events, none of them twice, puts an order in force. -/
theorem Fair.pointRegistered (h : explorer.Fair finished opened) {point : DecisionPoint}
    (hoffered : Schedule.IsRound point.offered) :
    (explorer.pointRegistered point).1.Fair finished true := by
  have hpoised := h.toPoised.pointRegistered point
  have hregistered := pointRegistered_eq h.reducing hoffered.1
  rw [hregistered] at hpoised ⊢
  cases hended : explorer.ended with
  | true =>
    simp only [hended, if_true] at hpoised ⊢
    refine
      { toPoised := hpoised
        toRegular := h.toRegular.change h.distinct h.waiting (fun _ => rfl) rfl (Or.inl ⟨rfl, rfl⟩)
        reducing := h.reducing, exhausted := h.exhausted, announced := h.announced
        offers := fun _ hgoes hnone => ?_ }
    -- A restart waits to be adopted, so the order in force does not matter.
    have hwaits := h.pendingSchedule hgoes
    have hannounced : explorer.pendingSchedule = none := hnone
    simp [hended, hannounced] at hwaits
  | false =>
    simp only [hended, Bool.false_eq_true, if_false] at hpoised ⊢
    cases hempty : explorer.schedule.isEmpty with
    | true =>
      have hnone : explorer.schedule.order = [] := List.isEmpty_iff.mp hempty
      simp only [adoptOffer, hempty, if_true] at hpoised ⊢
      exact
        { toPoised := hpoised
          toRegular := h.toRegular.change hoffered.2 h.waiting (fun _ => rfl) rfl
            (Or.inr (h.toRegular.taken?_of_order_eq_nil hnone 0))
          reducing := h.reducing, exhausted := h.exhausted, announced := h.announced
          offers := fun _ _ _ => hoffered.1 }
    | false =>
      simp only [adoptOffer, hempty, Bool.false_eq_true, if_false] at hpoised ⊢
      exact
        { toPoised := hpoised
          toRegular := h.toRegular.change h.distinct h.waiting (fun _ => rfl) rfl
            (Or.inl ⟨rfl, rfl⟩)
          reducing := h.reducing, exhausted := h.exhausted, announced := h.announced
          offers := fun _ _ _ => List.isEmpty_eq_false_iff.mp hempty }

/-- A state may be entered at any time. -/
theorem Fair.stateEntered (h : explorer.Fair finished opened) (state : StateId) :
    (explorer.stateEntered state).Fair finished opened := by
  have hpoised := h.toPoised.stateEntered state
  obtain ⟨predecessors, hentered⟩ := stateEntered_eq h.reducing state
  rw [hentered] at hpoised ⊢
  exact
    { toPoised := hpoised
      toRegular := h.toRegular.change h.distinct h.waiting (fun _ => rfl) rfl (Or.inl ⟨rfl, rfl⟩)
      reducing := h.reducing, exhausted := h.exhausted, announced := h.announced
      offers := h.offers }

/-- An access may be observed at any time. -/
theorem Fair.accessObserved [AccessFilter φ] (h : explorer.Fair finished opened)
    (active : ActivePoint) (access : Option Access) :
    (explorer.accessObserved active access).Fair finished opened := by
  have hpoised := h.toPoised.accessObserved active access
  obtain ⟨filter, hsame | ⟨hended, -, position, recorded, hrecorded⟩⟩ :=
    explorer.accessObserved_cases active access
  · rw [hsame] at hpoised ⊢
    exact
      { toPoised := hpoised
        toRegular := h.toRegular.change h.distinct h.waiting (fun _ => rfl) rfl (Or.inl ⟨rfl, rfl⟩)
        reducing := h.reducing, exhausted := h.exhausted, announced := h.announced
        offers := h.offers }
  · rw [hrecorded] at hpoised ⊢
    have hgoes := h.toPoised.not_finished hended
    refine
      { toPoised := hpoised
        toRegular := h.toRegular.change h.distinct h.waiting (fun place => ?_) rfl
          (Or.inl ⟨rfl, rfl⟩)
        reducing := h.reducing, exhausted := by simp [hgoes], announced := h.announced
        offers := h.offers }
    exact ExecutionLog.taken?_modify_of_same (·.recordAccess position recorded) (fun _ => rfl)
      (fun _ => rfl) _ _ place

/-- The split point may be passed at any time; the round that starts then has opened no decision
point. -/
theorem Fair.splitAdvanced (h : explorer.Fair finished opened) :
    explorer.splitAdvanced.Fair
      (if explorer.reducing && explorer.splitPassed then false else finished)
      (if explorer.reducing && explorer.splitPassed then false else opened) := by
  have hpoised := h.toPoised.splitAdvanced
  rw [splitAdvanced_eq] at hpoised ⊢
  split
  · rename_i hpassed
    simp only [hpassed, if_true] at hpoised
    exact
      { toPoised := hpoised
        toRegular := h.toRegular.change List.nodup_nil h.waiting
          (ExecutionLog.taken?_supersede rfl _ _) rfl
          (Or.inr (by simp [renewed, ExecutionLog.taken?, ExecutionLog.get?_next]))
        reducing := h.reducing, exhausted := by simp
        announced := fun order horder => absurd horder (by simp [renewed])
        offers := by simp }
  · rename_i hpassed
    simp only [hpassed, Bool.false_eq_true, if_false] at hpoised
    exact
      { toPoised := hpoised
        toRegular := h.toRegular.change h.distinct h.waiting (fun _ => rfl) rfl (Or.inl ⟨rfl, rfl⟩)
        reducing := h.reducing, exhausted := h.exhausted, announced := h.announced
        offers := h.offers }

/-- Moving on announces an order that can be followed, or finds that nothing is left. -/
theorem moveOn_fair (explorer : Explorer σ φ) (hregular : explorer.Regular)
    (hbacked : explorer.knowledge.Backed explorer.snapshots) (hreducing : explorer.reducing = true)
    (hblank : ∀ position, explorer.counter ≤ position →
      explorer.knowledge.log.footprint? ⟨explorer.current, position⟩ = none)
    (hannounced : ∀ order, explorer.pendingSchedule = some order → Schedule.IsRound order)
    (view : HostView σ) (point : DecisionPoint) (visits : Visits) (opened : Bool) :
    ∃ flow, (explorer.moveOn view point).outcome = .ok flow ∧
      ({ (explorer.moveOn view point).explorer with
          visits, counter := (explorer.moveOn view point).explorer.counter + 1 } :
        Explorer σ φ).Fair flow.isFinished opened := by
  obtain ⟨flow, houtcome, hended, hpoised⟩ := moveOn_poised explorer hbacked view point
  have hcounted := hpoised.count hended visits ((explorer.moveOn view point).explorer.counter + 1)
  refine ⟨flow, houtcome, ?_⟩
  rcases explorer.moveOn_cases (fun next rest hpop => (hbacked.pop? hpop).1) view point with
    ⟨hpop, hflow, hmoved⟩ | ⟨next, rest, hpop, hflow, hmoved⟩
  · obtain rfl := Except.ok.inj (houtcome.symm.trans hflow)
    rw [hmoved] at hcounted ⊢
    exact
      { toPoised := hcounted
        toRegular := hregular.change hregular.distinct hregular.waiting (fun _ => rfl) rfl
          (Or.inl ⟨rfl, rfl⟩)
        reducing := hreducing
        exhausted := fun _ => ⟨hpop, fun position hposition =>
          hblank position (Nat.le_of_succ_le_succ hposition)⟩
        announced := hannounced
        offers := by simp [Flow.isFinished] }
  · obtain rfl := Except.ok.inj (houtcome.symm.trans hflow)
    obtain ⟨waiting, taken, hledger, hrounds⟩ := hregular.waiting
    obtain ⟨before, after, rfl, hrest, -⟩ := hledger.pop? hpop
    rw [hmoved] at hcounted ⊢
    refine
      { toPoised := hcounted
        toRegular := hregular.change hregular.distinct ⟨_, _, hrest, fun point hpoint => ?_⟩
          (ExecutionLog.taken?_supersede rfl _ _) rfl
          (Or.inr (by simp [announcing, ExecutionLog.taken?, ExecutionLog.get?_next]))
        reducing := hreducing
        exhausted := by simp [Flow.isFinished]
        announced := fun order horder => ?_
        offers := fun _ _ hnone => absurd hnone (by simp [announcing]) }
    · refine hrounds point ?_
      rw [List.mem_append, List.mem_cons]
      exact (List.mem_append.mp hpoint).imp_right Or.inr
    · obtain rfl : next.schedule = order := Option.some.inj horder
      exact hrounds next (by simp)

/-- Adopting a restart puts its order in force. -/
theorem Fair.adoptPending (h : explorer.Fair false opened) :
    explorer.adoptPending.Fair false opened ∧ explorer.adoptPending.ended = false ∧
      explorer.adoptPending.pendingSchedule = none ∧
      explorer.adoptPending.current = explorer.current ∧
      explorer.adoptPending.knowledge = explorer.knowledge := by
  obtain ⟨hpoised, hended⟩ := h.toPoised.adoptPending
  have hwaits := h.pendingSchedule rfl
  unfold Explorer.adoptPending at hpoised hended ⊢
  cases horder : explorer.pendingSchedule with
  | none => exact ⟨h, by simpa [horder] using hended, horder, rfl, rfl⟩
  | some order =>
    simp only [horder] at hpoised
    obtain ⟨execution, hget, hlive⟩ := hpoised.live rfl
    have hround := h.announced order horder
    refine ⟨?_, rfl, rfl, rfl, rfl⟩
    exact
      { toPoised := hpoised
        toRegular := h.toRegular.change hround.2 h.waiting (fun _ => rfl) rfl
          (Or.inr (taken?_of_live hget hlive 0))
        reducing := h.reducing, exhausted := by simp, announced := by simp
        offers := fun _ _ _ => hround.1 }

/-- A decision for the event that is due goes ahead in the order that its execution is known for, or
moves on. -/
theorem Fair.decide (h : explorer.Fair false opened) (hended : explorer.ended = false)
    (view : HostView σ) (point : DecisionPoint) {event : Event}
    (hdue : explorer.schedule.eventAt? explorer.counter = some event) :
    ∃ flow, (explorer.decide view point event).outcome = .ok flow ∧
      (explorer.decide view point event).explorer.Fair flow.isFinished opened ∧
      (flow = .proceed → (explorer.decide view point event).point = point ∧
        (explorer.decide view point event).explorer.current = explorer.current ∧
        (explorer.decide view point event).explorer.schedule = explorer.schedule ∧
        ∃ start ∈ (explorer.decide view point event).explorer.history,
          start.execution = explorer.current) := by
  obtain ⟨execution, hget, hlive⟩ := h.toPoised.live_of_not_ended hended
  obtain ⟨later, ended, -, hgathers, hbacked, hdecide⟩ :=
    h.toPoised.decide_eq hended view point event
  have hregular : ({ explorer.noted view point.id event with knowledge := later } :
      Explorer σ φ).Regular :=
    (h.toRegular.noted hget hlive view point.id hdue).gathers hgathers
  obtain ⟨flow, houtcome, hpoised⟩ := h.toPoised.decide hended view point event
  rw [hdecide] at houtcome hpoised ⊢
  cases hends : ended || explorer.atMaxDepth with
  | true =>
    have hblank (position : Nat) (hposition : explorer.counter ≤ position) :
        later.log.footprint? ⟨explorer.current, position⟩ = none := by
      rw [hgathers.log_eq, footprint?_noted]
      simp [ExecutionLog.footprint?, hget, hlive.blank position hposition]
    obtain ⟨flow, houtcome, hmoved⟩ := moveOn_fair _ hregular hbacked h.reducing hblank h.announced
      view point
      ((({ explorer.noted view point.id event with knowledge := later } :
        Explorer σ φ).moveOn view point).explorer.visits.take event).forgetRecent opened
    have hmoves := outcome_moveOn_ne_proceed
      ({ explorer.noted view point.id event with knowledge := later } : Explorer σ φ) view point
    simp only [conclude, if_true, houtcome]
    refine ⟨flow, rfl, hmoved, ?_⟩
    rintro rfl
    exact absurd houtcome hmoves
  | false =>
    rw [hends] at houtcome hpoised
    rw [← Except.ok.inj houtcome] at hpoised
    have hthere : later.log.taken? ⟨explorer.current, explorer.counter⟩ =
        some ⟨event, view.state, some point.id⟩ := by
      rw [hgathers.log_eq, taken?_noted hget hlive.toMade]
      simp
    refine ⟨.proceed, rfl, ?_, fun _ => ⟨rfl, rfl, rfl, hregular.listed _ _ hthere⟩⟩
    exact
      { toPoised := hpoised
        toRegular := hregular.change h.distinct hregular.waiting (fun _ => rfl) rfl
          (Or.inl ⟨rfl, rfl⟩)
        reducing := h.reducing, exhausted := by simp [Flow.isFinished], announced := h.announced
        offers := h.offers }

/-- A decision point may be advanced until the host is told that nothing is left. -/
theorem Fair.choiceAdvanced (h : explorer.Fair false opened) (view : HostView σ)
    (point : DecisionPoint) :
    ∃ flow, (explorer.choiceAdvanced view point).outcome = .ok flow ∧
      (explorer.choiceAdvanced view point).explorer.Fair flow.isFinished opened := by
  obtain ⟨hadopted, hended, -⟩ := h.adoptPending
  cases hdue : explorer.adoptPending.schedule.eventAt? explorer.adoptPending.counter with
  | none =>
    rw [choiceAdvanced_of_not_due h.reducing hdue]
    exact ⟨.proceed, rfl, hadopted⟩
  | some event =>
    rw [choiceAdvanced_of_due h.reducing hdue]
    obtain ⟨flow, houtcome, hfair, -⟩ := hadopted.decide hended view (point.force event) hdue
    exact ⟨flow, houtcome, hfair⟩

/-- Propagating the accesses of the last event does not fail either, and learns nothing once nothing
is left. -/
private theorem Fair.completePrevious_eq (h : explorer.Fair finished opened) :
    ∃ later created, explorer.completePrevious =
        ({ explorer with knowledge := later }, .ok created) ∧
      explorer.knowledge.Calls later ∧
      explorer.knowledge.Gathers (fun _ => True) explorer.schedule.order later ∧
      (finished = true → later = explorer.knowledge) := by
  cases finished with
  | false =>
    obtain ⟨later, created, hcompleted, hcalls, hgathers⟩ := h.toPoised.completePrevious_eq
    exact ⟨later, created, hcompleted, hcalls, hgathers, by simp⟩
  | true =>
    obtain ⟨-, hblank⟩ := h.exhausted rfl
    refine ⟨explorer.knowledge, 0, ?_, .refl _, .refl _ _ _, fun _ => rfl⟩
    unfold completePrevious previousPlace?
    split
    · rfl
    · rename_i place hplace
      split at hplace
      · exact absurd hplace (by simp)
      · rw [← Option.some.inj hplace]
        simp [Knowledge.eventCompleted, hblank (explorer.counter - 1) (by omega), learn]

/-- A path may be ended by the host at any time; once nothing is left, this stays so. -/
theorem Fair.pathMatched (h : explorer.Fair finished opened) (view : HostView σ)
    (point : DecisionPoint) :
    ∃ flow, (explorer.pathMatched view point).outcome = .ok flow ∧
      (explorer.pathMatched view point).explorer.Fair (finished || flow.isFinished) opened := by
  obtain ⟨later, created, hcompleted, hcalls, hgathers, hnothing⟩ := h.completePrevious_eq
  have hblank (position : Nat) (hposition : explorer.counter ≤ position) :
      later.log.footprint? ⟨explorer.current, position⟩ = none := by
    rw [hgathers.log_eq]
    cases finished with
    | true => exact (h.exhausted rfl).2 position (by omega)
    | false =>
      obtain ⟨execution, hget, hlive⟩ := h.live rfl
      have hdecisions : explorer.decisions ≤ explorer.counter := by
        unfold decisions
        split <;> omega
      simp [ExecutionLog.footprint?, hget, hlive.blank position (by omega)]
  obtain ⟨flow, houtcome, hmoved⟩ := moveOn_fair { explorer with knowledge := later }
    (h.toRegular.gathers hgathers) (h.backed.calls hcalls) h.reducing hblank h.announced view point
    (({ explorer with knowledge := later } : Explorer σ φ).moveOn view
      point).explorer.visits.forgetRecent opened
  have hreduces : (!explorer.reducing) = false := by simp [h.reducing]
  simp only [Explorer.pathMatched, hreduces, Bool.false_eq_true, if_false, hcompleted, houtcome]
  refine ⟨flow, rfl, ?_⟩
  cases finished with
  | false => exact hmoved
  | true =>
    have hlater := hnothing rfl
    subst hlater
    rw [outcome_moveOn_of_pop?_eq_none (h.exhausted rfl).1] at houtcome
    obtain rfl := Except.ok.inj houtcome
    exact hmoved

/-- A decision that goes ahead is for the event due in the order that its execution is known for,
whichever event the host brought up. -/
theorem Fair.current_of_proceed (h : explorer.Fair false true) {view : HostView σ}
    {point : DecisionPoint}
    (hproceeds : (explorer.choiceAdvanced view point).outcome = .ok .proceed) :
    ∃ execution, explorer.knowledge.log.get? explorer.current = some execution ∧
      (∃ start ∈ (explorer.choiceAdvanced view point).explorer.history,
        start.execution = explorer.current) ∧
      ∀ start ∈ (explorer.choiceAdvanced view point).explorer.history,
        start.execution = explorer.current →
          start.schedule ≠ [] ∧ (explorer.choiceAdvanced view point).point.current =
            start.schedule[execution.decisions % start.schedule.length]? := by
  obtain ⟨hadopted, hended, hnone, hid, hknowledge⟩ := h.adoptPending
  obtain ⟨execution, hget, hlive⟩ := hadopted.toPoised.live_of_not_ended hended
  have hsome := hadopted.offers rfl rfl hnone
  have hbound := Nat.mod_lt explorer.adoptPending.counter (List.length_pos_iff.mpr hsome)
  have hdue : explorer.adoptPending.schedule.eventAt? explorer.adoptPending.counter =
      some (explorer.adoptPending.schedule.order[explorer.adoptPending.counter %
        explorer.adoptPending.schedule.order.length]) := List.getElem?_eq_getElem hbound
  rw [choiceAdvanced_of_due h.reducing hdue] at hproceeds ⊢
  obtain ⟨flow, houtcome, hfair, hgoes⟩ :=
    hadopted.decide hended view (point.force _) hdue
  obtain rfl := Except.ok.inj (houtcome.symm.trans hproceeds)
  obtain ⟨hpoint, hcurrent, hschedule, hthere⟩ := hgoes rfl
  rw [hid, hknowledge] at hget
  refine ⟨execution, hget, hid ▸ hthere, fun start hstart hstarted => ?_⟩
  have horder : start.schedule = explorer.adoptPending.schedule.order := by
    rw [← hschedule]
    exact hfair.toRegular.current start hstart (hstarted.trans (hid.symm.trans hcurrent.symm))
  rw [horder, hpoint, hlive.toMade.decisions_eq]
  exact ⟨hsome, hdue.symm⟩

end Explorer

/-- Whether the host makes a decision. -/
def Callback.decides {σ : Type} : Callback σ → Bool
  | choiceAdvanced _ _ => true
  | _ => false

/-- Whether the host opens a decision point. -/
def Callback.opensPoint {σ : Type} : Callback σ → Bool
  | pointRegistered _ => true
  | _ => false

/-- Whether a decision point, if one is opened, offers some events and none of them twice. -/
def Callback.offersRound {σ : Type} : Callback σ → Bool
  | pointRegistered point => !point.offered.isEmpty && decide point.offered.Nodup
  | _ => true

namespace Session

variable {σ φ : Type} [AccessFilter φ] {session : Session σ φ} {callbacks : List (Callback σ)}
  {opened : Bool}

/-- Whether a host that was told that the search is finished makes a decision only once a new round
has started. -/
def decidesInTime (session : Session σ φ) : List (Callback σ) → Bool
  | [] => true
  | callback :: callbacks =>
    !(session.finished && callback.decides) && (session.hear callback).decidesInTime callbacks

/-- Whether a decision point was opened in the round under way once a call was made, given whether
one was opened before. -/
def opensWith (session : Session σ φ) (opened : Bool) (callback : Callback σ) : Bool :=
  if session.explorer.startsRound callback then false else opened || callback.opensPoint

/-- Whether a decision point was opened in the round under way once all of the calls were made. -/
def opens (session : Session σ φ) (opened : Bool) : List (Callback σ) → Bool
  | [] => opened
  | callback :: callbacks =>
    (session.hear callback).opens (session.opensWith opened callback) callbacks

/-- Every call of a host that decides in time and offers some events, none of them twice, leaves the
explorer fair. -/
theorem hear_fair (h : session.explorer.Fair session.finished opened) (callback : Callback σ)
    (hoffers : callback.offersRound = true)
    (hallowed : (session.finished && callback.decides) = false) :
    (session.hear callback).explorer.Fair (session.hear callback).finished
      (session.opensWith opened callback) := by
  cases callback with
  | choiceAdvanced view point =>
    have hgoes : session.finished = false := by simpa [Callback.decides] using hallowed
    rw [hgoes] at h
    obtain ⟨flow, houtcome, hfair⟩ := h.choiceAdvanced view point
    simpa [hear, Explorer.hear, houtcome, Explorer.startsRound, hgoes, Except.map, opensWith,
      Callback.opensPoint] using hfair
  | pathMatched view point =>
    obtain ⟨flow, houtcome, hfair⟩ := h.pathMatched view point
    simpa [hear, Explorer.hear, houtcome, Explorer.startsRound, Except.map, opensWith,
      Callback.opensPoint] using hfair
  | pointRegistered point =>
    have hround : Schedule.IsRound point.offered := by
      simpa [Callback.offersRound, Schedule.IsRound] using hoffers
    rw [finished_hear session rfl]
    simpa [hear, Explorer.hear, Explorer.startsRound, opensWith, Callback.opensPoint] using
      h.pointRegistered hround
  | splitAdvanced =>
    rw [finished_hear session rfl]
    simpa [hear, Explorer.hear, Explorer.startsRound, opensWith, Callback.opensPoint] using
      h.splitAdvanced
  | accessObserved active access =>
    rw [finished_hear session rfl]
    simpa [hear, Explorer.hear, Explorer.startsRound, opensWith, Callback.opensPoint] using
      h.accessObserved active access
  | stateEntered state | stateLeft state =>
    rw [finished_hear session rfl]
    simpa [hear, Explorer.hear, Explorer.startsRound, opensWith, Callback.opensPoint] using
      h.stateEntered state
  | searchStarted | stateRestored | searchFinished =>
    rw [finished_hear session rfl]
    simpa [hear, Explorer.hear, Explorer.startsRound, opensWith, Callback.opensPoint] using h

/-- So do all of its calls. -/
theorem after_fair (h : session.explorer.Fair session.finished opened)
    (hoffers : ∀ callback ∈ callbacks, callback.offersRound = true)
    (hintime : session.decidesInTime callbacks = true) :
    (session.after callbacks).explorer.Fair (session.after callbacks).finished
      (session.opens opened callbacks) := by
  induction callbacks generalizing session opened with
  | nil => exact h
  | cons callback callbacks ih =>
    simp only [decidesInTime, Bool.and_eq_true, Bool.not_eq_true'] at hintime
    exact ih (hear_fair h callback (hoffers callback List.mem_cons_self) hintime.1)
      (fun later hlater => hoffers later (List.mem_cons_of_mem _ hlater)) hintime.2

/-- Whatever event the host brings up at a decision point, the explorer forces the one that is due
in the order of the execution, and so every execution follows its order round and round: any stretch
of it brings up each event as often as in whole rounds, rounded down or up. -/
theorem fair_order_is_forced (config : ExploreConfig) (hreduction : config.stateReduction = true)
    (filter : φ) (callbacks : List (Callback σ))
    (hoffers : ∀ callback ∈ callbacks, callback.offersRound = true)
    (hintime : (start config filter : Session σ φ).decidesInTime callbacks = true) :
    let session := (start config filter : Session σ φ).after callbacks
    ((start config filter : Session σ φ).opens false callbacks = true → session.finished = false →
      ∀ view point, (session.explorer.choiceAdvanced view point).outcome = .ok .proceed →
        ∃ execution, session.explorer.knowledge.log.get? session.explorer.current = some execution ∧
          (∃ start ∈ (session.explorer.choiceAdvanced view point).explorer.history,
            start.execution = session.explorer.current) ∧
          ∀ start ∈ (session.explorer.choiceAdvanced view point).explorer.history,
            start.execution = session.explorer.current →
              start.schedule ≠ [] ∧ (session.explorer.choiceAdvanced view point).point.current =
                start.schedule[execution.decisions % start.schedule.length]?) ∧
      (∀ id execution, session.explorer.knowledge.log.get? id = some execution →
        execution.decisions ≠ 0 → ∃ start ∈ session.explorer.history, start.execution = id) ∧
      ∀ start ∈ session.explorer.history, start.schedule ≠ [] ∧ start.schedule.Nodup ∧
        ∃ execution, session.explorer.knowledge.log.get? start.execution = some execution ∧
          execution.trace ≠ #[] ∧
          (∀ position transition, execution.trace[position]? = some transition →
            start.schedule[position % start.schedule.length]? = some transition.event) ∧
          ∀ first length, first + length ≤ execution.trace.size → ∀ event ∈ start.schedule,
            let stretch := ((execution.trace.toList.map (·.event)).drop first).take length
            stretch.count event = length / start.schedule.length ∨
              stretch.count event =
                (length + start.schedule.length - 1) / start.schedule.length := by
  have hfair := after_fair (Explorer.fair_start hreduction filter) hoffers hintime
  refine ⟨fun hopened hgoes view point hproceeds => ?_,
    fun id execution hget hmade => hfair.toRegular.listed_of_decisions_ne_zero hget hmade,
    fun start hstart => hfair.toRegular.stretches_of_mem_history hstart⟩
  rw [hopened, hgoes] at hfair
  exact hfair.current_of_proceed hproceeds

/-- After two rounds of which the first one was finished, the host brings up the event `0` at its
second decision, and the other one, which is due, is forced. -/
theorem fair_order_is_forced_twoRounds :
    let session := (start {} TrackAll.mk : Session Unit TrackAll).after twoRounds
    let reply := session.explorer.choiceAdvanced ⟨⟨2⟩, ()⟩
      { DecisionPoint.start ⟨8⟩ [⟨0⟩, ⟨1⟩] with current := some ⟨0⟩ }
    (start {} TrackAll.mk : Session Unit TrackAll).decidesInTime twoRounds = true ∧
      (start {} TrackAll.mk : Session Unit TrackAll).opens false twoRounds = true ∧
      session.finished = false ∧ reply.outcome = .ok .proceed ∧ reply.point.current = some ⟨1⟩ ∧
      ∃ execution, session.explorer.knowledge.log.get? session.explorer.current = some execution ∧
        (∃ start ∈ reply.explorer.history, start.execution = session.explorer.current) ∧
        ∀ start ∈ reply.explorer.history, start.execution = session.explorer.current →
          start.schedule ≠ [] ∧ reply.point.current =
            start.schedule[execution.decisions % start.schedule.length]? :=
  ⟨by decide +kernel, by decide +kernel, by decide +kernel, by decide +kernel, by decide +kernel,
    (fair_order_is_forced {} rfl TrackAll.mk twoRounds (by decide) (by decide +kernel)).1
      (by decide +kernel) (by decide +kernel) _ _ (by decide +kernel)⟩

end Session

end EventOrder
