import EventOrder.Proofs.Explorer.Whereabouts

/-!
# What the covering test says

The covering test is computed from what is kept of each state entered and from the last event that
the first decision point of the round listed. This file writes down beside the explorer what happens
in an execution: which states are entered and which events are taken, one after another. Whatever
calls a host makes, the test holds of a state exactly if the state was entered in the execution
under way and every event numbered up to the last one listed was taken since its first entry. So it
says that every event offered was taken if the events are offered under the numbers from 0 to the
last one listed, and only then can it be relied on.

The execution under way is the one that the last decision was made in: a restart that was announced
starts the next execution when a decision adopts it.
-/

namespace EventOrder

/-- What happens in an execution. -/
inductive Happening where
  /-- A state was entered. -/
  | entered (state : StateId)
  /-- An event was taken. -/
  | took (event : Event)
deriving DecidableEq, Repr

/-- What happened since a state was first entered. -/
def Happening.since (state : StateId) : List Happening → List Happening
  | [] => []
  | happening :: happenings =>
    if happening = .entered state then happenings else since state happenings

/-- What is written down of a round. -/
structure Chronicle where
  /-- The events that the first decision point of the round offers. A point opened after the end of
  an execution offers none. -/
  offered : List Event
  /-- What happened in the execution under way, in order. -/
  happenings : List Happening
deriving DecidableEq, Repr

namespace Chronicle

variable {chronicle : Chronicle} {state : StateId} {event : Event}

/-- Nothing was written down yet. -/
def blank : Chronicle := ⟨[], []⟩

/-- One more thing happened. -/
def note (chronicle : Chronicle) (happening : Happening) : Chronicle :=
  { chronicle with happenings := chronicle.happenings ++ [happening] }

/-- The state was entered in the execution under way. -/
def Entered (chronicle : Chronicle) (state : StateId) : Prop :=
  .entered state ∈ chronicle.happenings

/-- The event was taken in the execution under way since the state was first entered in it. -/
def TakenSince (chronicle : Chronicle) (state : StateId) (event : Event) : Prop :=
  .took event ∈ Happening.since state chronicle.happenings

instance (chronicle : Chronicle) (state : StateId) : Decidable (chronicle.Entered state) :=
  inferInstanceAs (Decidable (_ ∈ _))

instance (chronicle : Chronicle) (state : StateId) (event : Event) :
    Decidable (chronicle.TakenSince state event) :=
  inferInstanceAs (Decidable (_ ∈ _))

/-- What happens next comes after the first entry of each state entered before. -/
private theorem since_append_singleton (state : StateId) (happenings : List Happening)
    (next : Happening) :
    Happening.since state (happenings ++ [next]) =
      if .entered state ∈ happenings then Happening.since state happenings ++ [next] else [] := by
  induction happenings with
  | nil => simp [Happening.since]
  | cons happening happenings ih =>
    rw [List.cons_append, Happening.since, Happening.since]
    by_cases hfirst : happening = .entered state
    · simp [hfirst]
    · have hne : Happening.entered state ≠ happening := fun heq => hfirst heq.symm
      simp [hfirst, hne, ih]

/-- Nothing happened since a state that was not entered. -/
private theorem since_eq_nil {happenings : List Happening}
    (h : .entered state ∉ happenings) : Happening.since state happenings = [] := by
  induction happenings with
  | nil => rfl
  | cons happening happenings ih =>
    rw [List.mem_cons, not_or] at h
    rw [Happening.since, if_neg fun heq => h.1 heq.symm, ih h.2]

/-- Entering a state takes no event. -/
theorem takenSince_note_entered {other : StateId} :
    (chronicle.note (.entered other)).TakenSince state event ↔
      chronicle.TakenSince state event := by
  unfold TakenSince note
  rw [since_append_singleton]
  split
  · simp
  · rename_i hnot
    simp [since_eq_nil hnot]

/-- An event is taken for every state entered before. -/
theorem takenSince_note_took {other : Event} :
    (chronicle.note (.took other)).TakenSince state event ↔
      event = other ∧ chronicle.Entered state ∨ chronicle.TakenSince state event := by
  unfold TakenSince note Entered
  rw [since_append_singleton]
  split
  · rename_i hentered
    simp [hentered, or_comm]
  · rename_i hnot
    simp [since_eq_nil hnot, hnot]

end Chronicle

/-- The states known to be entered, and the events known to be taken since, are those written
down. -/
structure Visits.Tell (visits : Visits) (chronicle : Chronicle) : Prop where
  /-- The states known are those entered. -/
  entered : ∀ state, state ∈ visits.takenSince ↔ chronicle.Entered state
  /-- The events known of a state are those taken since its first entry. -/
  taken : ∀ state taken, visits.takenSince[state]? = some taken →
    ∀ event, event ∈ taken ↔ chronicle.TakenSince state event

namespace Visits

variable {visits later : Visits} {chronicle : Chronicle}

/-- Before any state is entered nothing is written down. -/
theorem tell_of_takenSince_eq_empty (hempty : visits.takenSince = ∅) (offered : List Event) :
    visits.Tell ⟨offered, []⟩ where
  entered state := by simp [hempty, Chronicle.Entered]
  taken state taken htaken := by simp [hempty] at htaken

/-- Nothing else of the visits is written down. -/
theorem Tell.congr (h : visits.Tell chronicle) (hsame : later.takenSince = visits.takenSince) :
    later.Tell chronicle where
  entered state := hsame ▸ h.entered state
  taken state taken htaken := h.taken state taken (hsame ▸ htaken)

/-- What the decision points offer is not kept by the visits. -/
theorem Tell.offer (h : visits.Tell chronicle) (offered : List Event) :
    visits.Tell { chronicle with offered } :=
  ⟨h.entered, h.taken⟩

/-- Entering a state is noted down. -/
theorem Tell.enter (h : visits.Tell chronicle) (state : StateId) :
    (visits.enter state).Tell (chronicle.note (.entered state)) where
  entered other := by
    simp only [Visits.enter, Std.ExtTreeMap.mem_insertIfNew, Std.compare_eq_iff_eq, h.entered]
    simp [Chronicle.Entered, Chronicle.note, or_comm, eq_comm]
  taken other taken htaken event := by
    rw [Chronicle.takenSince_note_entered]
    simp only [Visits.enter, Std.ExtTreeMap.getElem?_insertIfNew, Std.compare_eq_iff_eq] at htaken
    split at htaken
    · rename_i hnew
      obtain ⟨rfl, hnew⟩ := hnew
      rw [← Option.some.inj htaken]
      rw [h.entered] at hnew
      simp [Chronicle.TakenSince, Chronicle.since_eq_nil hnew]
    · exact h.taken other taken htaken event

/-- Taking an event is noted down. -/
theorem Tell.take (h : visits.Tell chronicle) (event : Event) :
    (visits.take event).Tell (chronicle.note (.took event)) where
  entered state := by
    simp only [Visits.take, Std.ExtTreeMap.mem_map, h.entered]
    simp [Chronicle.Entered, Chronicle.note]
  taken state taken htaken other := by
    simp only [Visits.take, Std.ExtTreeMap.getElem?_map, Option.map_eq_some_iff] at htaken
    obtain ⟨before, hbefore, rfl⟩ := htaken
    have hentered : chronicle.Entered state := by
      rw [← h.entered, Std.ExtTreeMap.mem_iff_isSome_getElem?, hbefore]
      rfl
    rw [Chronicle.takenSince_note_took, Std.ExtTreeSet.mem_insert, Std.compare_eq_iff_eq,
      h.taken state before hbefore]
    simp [hentered, eq_comm]

/-- The test holds of a state that was entered, once all events up to a last one were taken since
then. -/
theorem Tell.covers_iff (h : visits.Tell chronicle) (last : Event) (state : StateId) :
    visits.covers last state = true ↔ chronicle.Entered state ∧
      ∀ event : Event, event.number ≤ last.number → chronicle.TakenSince state event := by
  unfold covers
  cases hknown : visits.takenSince[state]? with
  | none =>
    have hnot : ¬chronicle.Entered state := by
      rw [← h.entered, Std.ExtTreeMap.mem_iff_isSome_getElem?, hknown]
      simp
    simp [hnot]
  | some taken =>
    have hentered : chronicle.Entered state := by
      rw [← h.entered, Std.ExtTreeMap.mem_iff_isSome_getElem?, hknown]
      rfl
    simp only [Nat.all_eq_finRange_all, List.all_eq_true, Std.ExtTreeSet.contains_iff_mem,
      h.taken state taken hknown, hentered, true_and]
    constructor
    · intro hall event hevent
      exact hall ⟨event.number, Nat.lt_succ_of_le hevent⟩ (List.mem_finRange _)
    · intro hall number _
      exact hall ⟨number⟩ (Nat.le_of_lt_succ number.isLt)

end Visits

namespace Explorer

variable {σ φ : Type} {explorer later : Explorer σ φ} {chronicle : Chronicle}

/-- The events that a decision point offers as the first one of the round, if it is that. -/
def firstOffer? (explorer : Explorer σ φ) (point : DecisionPoint) : Option (List Event) :=
  if explorer.reducing && (explorer.offersSeen || !point.offered.isEmpty) && !explorer.ended &&
      explorer.schedule.isEmpty then
    some point.offered
  else none

/-- The event that a decision takes, unless it fails or no event is due. -/
def takes? (explorer : Explorer σ φ) (view : HostView σ) (point : DecisionPoint) : Option Event :=
  match (explorer.choiceAdvanced view point).outcome with
  | .ok _ => explorer.adoptPending.schedule.eventAt? explorer.adoptPending.counter
  | .error _ => none

/-- The chronicle after a call. -/
def chronicles (explorer : Explorer σ φ) (chronicle : Chronicle) : Callback σ → Chronicle
  | .pointRegistered point =>
    match explorer.firstOffer? point with
    | some offered => { chronicle with offered }
    | none => chronicle
  | .choiceAdvanced view point =>
    if explorer.reducing then
      let adopted :=
        if explorer.pendingSchedule.isSome then { chronicle with happenings := [] } else chronicle
      match explorer.takes? view point with
      | some event => adopted.note (.took event)
      | none => adopted
    else chronicle
  | .stateEntered state | .stateLeft state =>
    if explorer.reducing then chronicle.note (.entered state) else chronicle
  | .splitAdvanced => if explorer.startsRound .splitAdvanced then .blank else chronicle
  | .searchStarted | .pathMatched _ _ | .accessObserved _ _ | .stateRestored
  | .searchFinished _ => chronicle

/-- The chronicle after all of the calls. -/
def chronicleAfter [AccessFilter φ] (explorer : Explorer σ φ) (chronicle : Chronicle) :
    List (Callback σ) → Chronicle
  | [] => chronicle
  | callback :: callbacks =>
    (explorer.hear callback).1.chronicleAfter (explorer.chronicles chronicle callback) callbacks

/-- Nothing that the covering test reads differs. -/
structure SameCover (explorer later : Explorer σ φ) : Prop where
  /-- The last event listed is the same. -/
  lastEvent : later.lastEvent = explorer.lastEvent
  /-- The same events are known to be taken. -/
  takenSince : later.visits.takenSince = explorer.visits.takenSince

/-- Moving on leaves the covering test: it still speaks of the execution that has ended. -/
private theorem sameCover_moveOn (explorer : Explorer σ φ) (view : HostView σ)
    (point : DecisionPoint) : explorer.SameCover (explorer.moveOn view point).explorer := by
  unfold moveOn
  split
  · exact ⟨rfl, rfl⟩
  · dsimp only
    split <;> exact ⟨rfl, rfl⟩

/-- What a decision does to the covering test: the event is taken unless the decision fails. -/
structure Decided (explorer : Explorer σ φ) (event : Event) (reply : Reply σ φ) : Prop where
  /-- The last event listed stays. -/
  lastEvent : reply.explorer.lastEvent = explorer.lastEvent
  /-- The event counts for every state entered. -/
  takenSince : reply.explorer.visits.takenSince =
    match reply.outcome with
    | .ok _ => (explorer.visits.take event).takenSince
    | .error _ => explorer.visits.takenSince

/-- Concluding a decision takes the event unless it fails. -/
private theorem decided_conclude (explorer : Explorer σ φ) (ends : Bool) (view : HostView σ)
    (point : DecisionPoint) (event : Event) :
    explorer.Decided event (explorer.conclude ends view point event) := by
  unfold conclude
  cases ends with
  | false => exact ⟨rfl, rfl⟩
  | true =>
    have hmoved := explorer.sameCover_moveOn view point
    simp only [if_true]
    cases houtcome : (explorer.moveOn view point).outcome with
    | error error =>
      refine ⟨hmoved.lastEvent, ?_⟩
      simp only [houtcome]
      exact hmoved.takenSince
    | ok flow =>
      refine ⟨hmoved.lastEvent, ?_⟩
      simp only [countDecision, Visits.forgetRecent, Visits.take, hmoved.takenSince]

/-- A decision takes its event unless it fails. -/
private theorem decided_decide (explorer : Explorer σ φ) (view : HostView σ)
    (point : DecisionPoint) (event : Event) :
    explorer.Decided event (explorer.decide view point event) := by
  have hsteps := explorer.decide_steps view point event
  generalize explorer.decide view point event = reply at hsteps ⊢
  cases hsteps with
  | failed => exact ⟨rfl, rfl⟩
  | concluded knowledge history snapshots _ ends =>
    have hconcluded := decided_conclude
      ({ explorer with knowledge, history, snapshots } : Explorer σ φ) ends view point event
    exact ⟨hconcluded.lastEvent, hconcluded.takenSince⟩

/-- What the covering test reads is what is written down. -/
structure Chronicled (explorer : Explorer σ φ) (chronicle : Chronicle) : Prop where
  /-- The last event known is the last one that the round's first decision point offers. -/
  lastEvent : explorer.lastEvent = chronicle.offered.getLast?
  /-- The visits tell what happened in the execution under way. -/
  tell : explorer.visits.Tell chronicle

/-- Before the first call nothing is written down. -/
theorem chronicled_start (config : ExploreConfig) (filter : φ) :
    (start config filter : Explorer σ φ).Chronicled .blank :=
  ⟨rfl, Visits.tell_of_takenSince_eq_empty rfl []⟩

/-- What the test does not read may change. -/
theorem Chronicled.congr (h : explorer.Chronicled chronicle) (hsame : explorer.SameCover later) :
    later.Chronicled chronicle :=
  ⟨hsame.lastEvent.trans h.lastEvent, h.tell.congr hsame.takenSince⟩

/-- The explorer once the first decision point has settled whether there is anything to reduce. -/
private def settled (explorer : Explorer σ φ) (point : DecisionPoint) : Explorer σ φ :=
  if explorer.offersSeen then explorer
  else { explorer with
    offersSeen := true, reducing := explorer.reducing && !point.offered.isEmpty }

/-- A decision point opened in an execution under way may have its offer adopted. -/
private theorem pointRegistered_fst (explorer : Explorer σ φ) (point : DecisionPoint) :
    (explorer.pointRegistered point).1 =
      if (explorer.settled point).reducing && !(explorer.settled point).ended then
        (explorer.settled point).adoptOffer point.offered
      else explorer.settled point := by
  let adopted := (explorer.settled point).adoptOffer point.offered
  have hregistered : explorer.pointRegistered point =
      if !(explorer.settled point).reducing then (explorer.settled point, point)
      else if (explorer.settled point).ended then (explorer.settled point, point.close)
      else
        match adopted.schedule.eventAt? adopted.counter with
        | some event => (adopted, (point.offer adopted.schedule.order).preselect event)
        | none => (adopted, point.offer adopted.schedule.order) := rfl
  rw [hregistered]
  cases (explorer.settled point).reducing with
  | false => rfl
  | true =>
    cases (explorer.settled point).ended with
    | true => rfl
    | false =>
      simp only [Bool.not_true, Bool.false_eq_true, if_false, Bool.not_false, Bool.and_self,
        if_true]
      split <;> rfl

/-- The first decision point of a round is opened in an execution that has no order yet. -/
private theorem firstOffer?_eq (explorer : Explorer σ φ) (point : DecisionPoint) :
    explorer.firstOffer? point =
      if (explorer.settled point).reducing && !(explorer.settled point).ended &&
          (explorer.settled point).schedule.isEmpty then
        some point.offered
      else none := by
  unfold firstOffer? settled
  cases explorer.offersSeen <;> simp

/-- Opening a decision point notes down its offer if it is the first one of the round. -/
private theorem Chronicled.pointRegistered (h : explorer.Chronicled chronicle)
    (point : DecisionPoint) :
    (explorer.pointRegistered point).1.Chronicled
      (explorer.chronicles chronicle (.pointRegistered point : Callback σ)) := by
  have hsame : explorer.SameCover (explorer.settled point) := by
    unfold settled
    split <;> exact ⟨rfl, rfl⟩
  have hsettled := h.congr hsame
  rw [pointRegistered_fst]
  simp only [chronicles, firstOffer?_eq]
  cases hopen : (explorer.settled point).reducing && !(explorer.settled point).ended with
  | false => simpa using hsettled
  | true =>
    cases hempty : (explorer.settled point).schedule.isEmpty with
    | false => simpa [adoptOffer, hempty] using hsettled
    | true =>
      simp only [adoptOffer, hempty, Bool.and_self, if_true]
      exact ⟨rfl, hsettled.tell.offer point.offered⟩

/-- A decision notes down its event, in a new execution if a restart was announced. -/
private theorem Chronicled.choiceAdvanced (h : explorer.Chronicled chronicle) (view : HostView σ)
    (point : DecisionPoint) :
    (explorer.choiceAdvanced view point).explorer.Chronicled
      (explorer.chronicles chronicle (.choiceAdvanced view point)) := by
  cases hreducing : explorer.reducing with
  | false =>
    rw [choiceAdvanced_of_not_reducing hreducing]
    simp only [chronicles, hreducing, Bool.false_eq_true, if_false]
    exact ⟨h.lastEvent, h.tell⟩
  | true =>
    -- a restart that was announced starts the next execution before the event is taken
    have hadopted : explorer.adoptPending.Chronicled
        (if explorer.pendingSchedule.isSome then { chronicle with happenings := [] }
        else chronicle) := by
      unfold adoptPending
      cases explorer.pendingSchedule with
      | none => exact h
      | some order => exact ⟨h.lastEvent, Visits.tell_of_takenSince_eq_empty rfl _⟩
    simp only [chronicles, hreducing, if_true]
    cases hdue : explorer.adoptPending.schedule.eventAt? explorer.adoptPending.counter with
    | none =>
      have hreply := choiceAdvanced_of_not_due hreducing hdue view point
      simp only [takes?, hreply, hdue]
      exact hadopted
    | some event =>
      have hdecided := explorer.adoptPending.decided_decide view (point.force event) event
      rw [← choiceAdvanced_of_due hreducing hdue view point] at hdecided
      have hlast := hdecided.lastEvent.trans hadopted.lastEvent
      have hsince := hdecided.takenSince
      cases houtcome : (explorer.choiceAdvanced view point).outcome with
      | error error =>
        simp only [houtcome] at hsince
        simp only [takes?, houtcome]
        exact ⟨hlast, hadopted.tell.congr hsince⟩
      | ok flow =>
        simp only [houtcome] at hsince
        simp only [takes?, houtcome, hdue]
        exact ⟨hlast, (hadopted.tell.take event).congr hsince⟩

/-- Ending a path takes no event. -/
private theorem sameCover_pathMatched (explorer : Explorer σ φ) (view : HostView σ)
    (point : DecisionPoint) :
    explorer.SameCover (explorer.pathMatched view point).explorer := by
  have hsteps := explorer.pathMatched_steps view point
  generalize explorer.pathMatched view point = reply at hsteps ⊢
  cases hsteps with
  | counted | failed => exact ⟨rfl, rfl⟩
  | stuck knowledge | moved knowledge =>
    have hmoved := sameCover_moveOn ({ explorer with knowledge } : Explorer σ φ) view point
    exact ⟨hmoved.lastEvent, hmoved.takenSince⟩

/-- Entering a state is noted down if there is anything to reduce. -/
private theorem Chronicled.stateEntered (h : explorer.Chronicled chronicle) (state : StateId) :
    (explorer.stateEntered state).Chronicled
      (explorer.chronicles chronicle (.stateEntered state : Callback σ)) := by
  cases hreducing : explorer.reducing with
  | false => simpa [Explorer.stateEntered, chronicles, hreducing] using h
  | true =>
    obtain ⟨predecessors, hentered⟩ := stateEntered_eq hreducing state
    simp only [chronicles, hreducing, if_true, hentered]
    exact ⟨h.lastEvent, h.tell.enter state⟩

/-- A new round starts a new chronicle. -/
private theorem Chronicled.splitAdvanced (h : explorer.Chronicled chronicle) :
    explorer.splitAdvanced.Chronicled
      (explorer.chronicles chronicle (.splitAdvanced : Callback σ)) := by
  rw [splitAdvanced_eq]
  cases hstarts : explorer.reducing && explorer.splitPassed with
  | true =>
    simp only [chronicles, startsRound, hstarts, if_true]
    exact ⟨rfl, Visits.tell_of_takenSince_eq_empty rfl []⟩
  | false =>
    simp only [chronicles, startsRound, hstarts, Bool.false_eq_true, if_false]
    exact ⟨h.lastEvent, h.tell⟩

/-- Whatever a call does to the covering test is noted down. -/
theorem Chronicled.hear [AccessFilter φ] (h : explorer.Chronicled chronicle)
    (callback : Callback σ) :
    (explorer.hear callback).1.Chronicled (explorer.chronicles chronicle callback) := by
  cases callback with
  | searchStarted | stateRestored | searchFinished => exact h
  | pointRegistered point => exact h.pointRegistered point
  | choiceAdvanced view point => exact h.choiceAdvanced view point
  | pathMatched view point => exact h.congr (explorer.sameCover_pathMatched view point)
  | accessObserved active access =>
    obtain ⟨filter, hsame | ⟨-, -, position, recorded, hrecorded⟩⟩ :=
      explorer.accessObserved_cases active access
    · simp only [Explorer.hear, hsame]
      exact h.congr ⟨rfl, rfl⟩
    · simp only [Explorer.hear, hrecorded]
      exact h.congr ⟨rfl, rfl⟩
  | stateEntered state | stateLeft state => exact h.stateEntered state
  | splitAdvanced => exact h.splitAdvanced

/-- So is whatever all calls do to it. -/
theorem Chronicled.after [AccessFilter φ] (h : explorer.Chronicled chronicle)
    (callbacks : List (Callback σ)) :
    (explorer.after callbacks).Chronicled (explorer.chronicleAfter chronicle callbacks) := by
  induction callbacks generalizing explorer chronicle with
  | nil => exact h
  | cons callback callbacks ih => exact ih (h.hear callback)

/-- The covering test holds of a state that was entered in the execution under way, once every event
numbered up to the last one offered was taken since then. -/
theorem Chronicled.coversAllEvents_iff (h : explorer.Chronicled chronicle) (state : StateId) :
    explorer.coversAllEvents state = true ↔
      ∃ last ∈ chronicle.offered.getLast?, chronicle.Entered state ∧
        ∀ event : Event, event.number ≤ last.number → chronicle.TakenSince state event := by
  unfold coversAllEvents
  rw [h.lastEvent]
  cases chronicle.offered.getLast? with
  | none => simp
  | some last => simp [h.tell.covers_iff]

/-- Whatever calls a host makes, in any order, the covering test holds of a state exactly if the
state was entered in the execution under way and every event numbered up to the last one that the
round's first decision point listed was taken since its first entry. If that point offered the
events numbered up to its last one, in whatever order but for this last one, the test says that
every event offered was taken. -/
theorem covers_iff_taken_since [AccessFilter φ] (config : ExploreConfig) (filter : φ)
    (callbacks : List (Callback σ)) (state : StateId) :
    let first := (start config filter : Explorer σ φ)
    let explorer := first.after callbacks
    let chronicle := first.chronicleAfter .blank callbacks
    (explorer.coversAllEvents state = true ↔
      ∃ last ∈ chronicle.offered.getLast?, chronicle.Entered state ∧
        ∀ event : Event, event.number ≤ last.number → chronicle.TakenSince state event) ∧
    ∀ last ∈ chronicle.offered.getLast?,
      (∀ event, event ∈ chronicle.offered ↔ event.number ≤ last.number) →
        (explorer.coversAllEvents state = true ↔
          chronicle.Entered state ∧ ∀ event ∈ chronicle.offered,
            chronicle.TakenSince state event) := by
  intro first explorer chronicle
  have hiff := ((chronicled_start config filter).after callbacks).coversAllEvents_iff state
  refine ⟨hiff, fun last hlast hoffered => hiff.trans ?_⟩
  simp only [hoffered]
  constructor
  · rintro ⟨other, hother, hcovers⟩
    obtain rfl := Option.some.inj (hlast.symm.trans hother)
    exact hcovers
  · exact fun hcovers => ⟨last, hlast, hcovers⟩

/-- A host that makes so many decisions, each over the same events and in a state not met before. -/
def wander (offered : List Event) (decisions : Nat) : List (Callback Unit) :=
  (List.range decisions).flatMap fun number =>
    let point : DecisionPoint := .start ⟨number⟩ offered
    [.pointRegistered point, .choiceAdvanced ⟨⟨number + 1⟩, ()⟩ point, .stateEntered ⟨number + 2⟩]

/-- When events 0 and 1 are offered in this order, state 2 is covered once both were taken in it or
after it. -/
theorem covers_iff_taken_since_wander :
    let first : Explorer Unit TrackAll := start {} TrackAll.mk
    let chronicle := first.chronicleAfter .blank (wander [⟨0⟩, ⟨1⟩] 3)
    (first.after (wander [⟨0⟩, ⟨1⟩] 3)).coversAllEvents ⟨2⟩ = true ∧ chronicle.Entered ⟨2⟩ ∧
      ∀ event ∈ chronicle.offered, chronicle.TakenSince ⟨2⟩ event := by
  intro first chronicle
  have hoffered : chronicle.offered = [⟨0⟩, ⟨1⟩] := by decide +kernel
  have hcovers : (first.after (wander [⟨0⟩, ⟨1⟩] 3)).coversAllEvents ⟨2⟩ = true := by
    decide +kernel
  have hiff := (covers_iff_taken_since {} TrackAll.mk (wander [⟨0⟩, ⟨1⟩] 3) ⟨2⟩).2 ⟨1⟩
    (by decide +kernel) fun event => by
      obtain ⟨number⟩ := event
      change _ ∈ chronicle.offered ↔ _
      rw [hoffered]
      simp only [List.mem_cons, Event.mk.injEq, List.not_mem_nil, or_false]
      omega
  exact ⟨hcovers, hiff.mp hcovers⟩

/-- When they are offered the other way round, state 2 counts as covered once event 0 was taken in
it, although event 1 was offered as well. And when events 0 and 2 are offered, it does not count as
covered although both were taken. -/
theorem covering_test_misleads_wander :
    let first : Explorer Unit TrackAll := start {} TrackAll.mk
    let unsorted := first.chronicleAfter .blank (wander [⟨1⟩, ⟨0⟩] 2)
    let sparse := first.chronicleAfter .blank (wander [⟨0⟩, ⟨2⟩] 3)
    ((first.after (wander [⟨1⟩, ⟨0⟩] 2)).coversAllEvents ⟨2⟩ = true ∧
      ⟨1⟩ ∈ unsorted.offered ∧ ¬unsorted.TakenSince ⟨2⟩ ⟨1⟩) ∧
    ((first.after (wander [⟨0⟩, ⟨2⟩] 3)).coversAllEvents ⟨2⟩ = false ∧ sparse.Entered ⟨2⟩ ∧
      ∀ event ∈ sparse.offered, sparse.TakenSince ⟨2⟩ event) := by
  decide +kernel

end Explorer

end EventOrder
