import EventOrder.Proofs.Race.Delivery

/-!
# The nearest race

Where an execution is the only way into the states that it passes, and it passes none of them twice,
the walk from one of its events goes straight back along it. As long as the states know nothing of
the event and no race is met, all its accesses travel on. So the first race that is met, which is
the nearest one, calls for a reordering, and when there is none, every state of the execution gets
to know the accesses.
-/

namespace EventOrder

/-- The accesses recorded at a place, none when nothing was recorded there. -/
def ExecutionLog.recordedAt (log : ExecutionLog) (place : TransitionRef) : Footprint :=
  (log.footprint? place).getD .empty

/-- One place of an execution is the other or comes before it. -/
def TransitionRef.IsUpTo (earlier place : TransitionRef) : Prop :=
  ∃ position ≤ place.position, earlier = { place with position }

namespace Knowledge

/-- These are the transitions of an execution up to a place. Their states are different, and nothing
leads into any of them but the transition before. -/
structure Line (knowledge : Knowledge) (place : TransitionRef) (trace : Nat → Transition) :
    Prop where
  /-- The transitions were taken. -/
  transition?_eq : ∀ position ≤ place.position,
    knowledge.log.transition? { place with position } = some (trace position)
  /-- They were taken in different states. -/
  state_injective : ∀ position ≤ place.position, ∀ other ≤ place.position,
    (trace position).state = (trace other).state → position = other
  /-- No place leads into the first state. -/
  of_first : knowledge.predecessors.of (trace 0).state = []
  /-- The place before, and no other, leads into each later state. -/
  of_next : ∀ position < place.position,
    knowledge.predecessors.of (trace (position + 1)).state = [{ place with position }]

/-- At the position another event was taken than at the place, and the accesses recorded at the
place conflict with those recorded at the position. -/
def Races (knowledge : Knowledge) (place : TransitionRef) (trace : Nat → Transition)
    (position : Nat) : Prop :=
  (trace position).event ≠ (trace place.position).event ∧
    (knowledge.log.recordedAt place).conflictsWith
      (knowledge.log.recordedAt { place with position }) = true

instance (knowledge : Knowledge) (place : TransitionRef) (trace : Nat → Transition) :
    DecidablePred (knowledge.Races place trace) :=
  fun _ => inferInstanceAs (Decidable (_ ∧ _))

/-- A position with a race, and there is no later one before the place. -/
structure NearestRace (knowledge : Knowledge) (place : TransitionRef) (trace : Nat → Transition)
    (nearest : Nat) : Prop where
  /-- It comes before the place. -/
  lt : nearest < place.position
  /-- There is a race. -/
  races : knowledge.Races place trace nearest
  /-- There is none in between. -/
  not_races : ∀ position < place.position, nearest < position →
    ¬knowledge.Races place trace position

/-- The frame with which the accesses recorded at the place come to a position. -/
def frameAt (knowledge : Knowledge) (place : TransitionRef) (trace : Nat → Transition)
    (position : Nat) : Frame :=
  ⟨{ place with position }, (trace place.position).event, knowledge.log.recordedAt place,
    position != place.position⟩

/-- The frame to be visited when so many positions remain. -/
def framesAhead (knowledge : Knowledge) (place : TransitionRef) (trace : Nat → Transition) :
    Nat → List Frame
  | 0 => []
  | position + 1 => [knowledge.frameAt place trace position]

variable {knowledge : Knowledge} {place : TransitionRef} {trace : Nat → Transition}
  {reference : List Event} {position : Nat}

/-- An event does not race with itself. -/
theorem not_races_self : ¬knowledge.Races place trace place.position := fun hrace => hrace.1 rfl

/-- There is one nearest race only. -/
theorem NearestRace.unique {nearest other : Nat} (h : knowledge.NearestRace place trace nearest)
    (hother : knowledge.NearestRace place trace other) : nearest = other := by
  rcases Nat.lt_trichotomy nearest other with hlt | hsame | hgt
  · exact absurd hother.races (h.not_races other hother.lt hlt)
  · exact hsame
  · exact absurd h.races (hother.not_races nearest h.lt hgt)

/-- A walk along a line stays on it. -/
theorem Line.leads (h : knowledge.Line place trace) {earlier : TransitionRef}
    (hearlier : earlier.IsUpTo place) (transition : Transition)
    (htransition : knowledge.log.transition? earlier = some transition) :
    ∀ before ∈ knowledge.predecessors.of transition.state, before.IsUpTo place := by
  intro before hbefore
  obtain ⟨position, hposition, rfl⟩ := hearlier
  obtain rfl := Option.some.inj ((h.transition?_eq position hposition).symm.trans htransition)
  cases position with
  | zero => simp [h.of_first] at hbefore
  | succ position =>
    rw [h.of_next position hposition, List.mem_singleton] at hbefore
    exact ⟨position, by omega, hbefore⟩

end Knowledge

namespace Walk

variable {walk next : Walk} {frame : Frame} {transition : Transition} {knowledge : Knowledge}
  {place : TransitionRef} {trace : Nat → Transition} {reference : List Event} {position : Nat}

/-- There is no conflict for a frame that is not to be checked, nor with its own event, nor with
accesses that the frame's do not conflict with. -/
theorem conflictRest?_eq_none_iff :
    walk.conflictRest? frame transition = none ↔
      ¬(frame.check = true ∧ transition.event ≠ frame.event ∧
        frame.footprint.conflictsWith (walk.knowledge.log.recordedAt frame.place) = true) := by
  unfold conflictRest?
  rw [← Footprint.isSome_takeConflict?, ExecutionLog.recordedAt]
  split
  · rename_i hchecked
    cases walk.knowledge.log.footprint? frame.place <;> simp [hchecked]
  · rename_i hchecked
    simp only [true_iff]
    exact fun hconflict => hchecked ⟨hconflict.1, hconflict.2.1⟩

/-- The frame that comes to a position meets a conflict there if the place races with it. -/
theorem conflictRest?_frameAt_eq_none_iff (hlog : walk.knowledge.log = knowledge.log) :
    walk.conflictRest? (knowledge.frameAt place trace position) (trace position) = none ↔
      ¬knowledge.Races place trace position := by
  rw [conflictRest?_eq_none_iff, hlog]
  by_cases hsame : position = place.position
  · simp [Knowledge.Races, Knowledge.frameAt, hsame]
  · simp [Knowledge.Races, Knowledge.frameAt, hsame]

/-- A visit takes no admitted point back. -/
theorem isConstructed_of_visit {state : StateId} {event : Event}
    (hconstructed : walk.knowledge.backlog.isConstructed state event = true)
    (hvisit : walk.visit reference frame = .ok next) :
    next.knowledge.backlog.isConstructed state event = true := by
  obtain ⟨transition, -, ⟨-, rfl⟩ | ⟨rest, -, rfl⟩⟩ := visit_cases hvisit
  · exact hconstructed
  · have hfirst : (BacktrackPoint.reorder transition.state frame.event reference
        frame.place).first? = some frame.event := rfl
    exact (Backlog.isConstructed_add_iff hfirst).mpr (Or.inl hconstructed)

/-- A walk that went straight back along a line and has still to visit its first positions. The
states there know of the event what they knew before, and the states behind them know all that
travels. -/
structure Follows (walk : Walk) (knowledge : Knowledge) (place : TransitionRef)
    (trace : Nat → Transition) (remaining : Nat) : Prop where
  /-- No reordering was called for. -/
  backlog_eq : walk.knowledge.backlog = knowledge.backlog
  /-- So none was counted. -/
  created_eq : walk.created = 0
  /-- The last of the positions is to be visited next. -/
  stack_eq : walk.stack = knowledge.framesAhead place trace remaining
  /-- None of them was expanded. -/
  unvisited : ∀ position < remaining, walk.visited.contains { place with position } = false
  /-- Nothing was absorbed there. -/
  unchanged : ∀ position < remaining,
    walk.knowledge.summary.footprintAt (trace position).state (trace place.position).event =
      knowledge.summary.footprintAt (trace position).state (trace place.position).event
  /-- All was absorbed at the other ones. -/
  delivered : ∀ position, remaining ≤ position → position ≤ place.position →
    ∀ access ∈ knowledge.log.recordedAt place,
      access ∈ walk.knowledge.summary.footprintAt (trace position).state
        (trace place.position).event

/-- A walk from the place has all positions before it. -/
theorem follows_start (knowledge : Knowledge) (place : TransitionRef) (trace : Nat → Transition) :
    (start knowledge (knowledge.frameAt place trace place.position)).Follows knowledge place trace
      (place.position + 1) where
  backlog_eq := rfl
  created_eq := rfl
  stack_eq := rfl
  unvisited position _ := by simp [start]
  unchanged position _ := rfl
  delivered position hbehind hposition := by omega

/-- What comes to a state that knows nothing of the event travels on to the position before. -/
private theorem Follows.absorb (h : walk.Follows knowledge place trace (position + 1))
    (hline : knowledge.Line place trace) (hposition : position ≤ place.position)
    (hpredecessors : walk.knowledge.predecessors = knowledge.predecessors)
    (hnonempty : (knowledge.log.recordedAt place).isEmpty = false)
    (hunknown : knowledge.summary.footprintAt (trace position).state
      (trace place.position).event = .empty) :
    (({ walk with stack := [] } : Walk).absorb (trace position).state
      (knowledge.frameAt place trace position)).Follows knowledge place trace position where
  backlog_eq := h.backlog_eq
  created_eq := h.created_eq
  stack_eq := by
    -- The state knows nothing of the event, so the whole footprint is news and goes on.
    have hnews : (walk.knowledge.summary.absorb (trace position).state
        (trace place.position).event (knowledge.log.recordedAt place)).1 =
          knowledge.log.recordedAt place := by
      rw [Summary.absorb_fst, h.unchanged position (by omega), hunknown, Footprint.minus_empty]
    have hvisited := h.unvisited position (by omega)
    simp only [Walk.absorb, Knowledge.frameAt, hnews, hvisited, hnonempty, hpredecessors,
      Bool.or_self, Bool.false_eq_true, if_false, List.append_nil]
    cases position with
    | zero => simp [hline.of_first, Knowledge.framesAhead]
    | succ before =>
      have hbefore : before ≠ place.position := by omega
      simp [hline.of_next before hposition, Knowledge.framesAhead, Knowledge.frameAt, hbefore]
  unvisited other hother := by
    have hne : position ≠ other := by omega
    have hold := h.unvisited other (by omega)
    simp [Walk.absorb, Knowledge.frameAt, Std.ExtTreeSet.contains_insert, hold, hne]
  unchanged other hother := by
    have hstate : (trace position).state ≠ (trace other).state := fun hsame => by
      have heq := hline.state_injective position hposition other (by omega) hsame
      omega
    exact (Summary.footprintAt_absorb_of_ne hstate _ _ _).trans (h.unchanged other (by omega))
  delivered other hbehind hother access haccess := by
    by_cases hsame : position = other
    · subst hsame
      exact Summary.mem_footprintAt_absorb_self _ _ _ haccess
    · have hstate : (trace position).state ≠ (trace other).state := fun heq =>
        hsame (hline.state_injective position hposition other hother heq)
      have hold := h.delivered other (by omega) hother access haccess
      exact (Summary.footprintAt_absorb_of_ne hstate _ _ _).symm ▸ hold

/-- The next visit meets a race and calls for a reordering, or it goes on along the line, if the
state of the position knows nothing of the event. -/
theorem Follows.visit (h : walk.Follows knowledge place trace (position + 1))
    (hline : knowledge.Line place trace) (hposition : position ≤ place.position)
    (hlog : walk.knowledge.log = knowledge.log)
    (hpredecessors : walk.knowledge.predecessors = knowledge.predecessors)
    (hnonempty : (knowledge.log.recordedAt place).isEmpty = false)
    (hvisit : ({ walk with stack := [] } : Walk).visit reference
      (knowledge.frameAt place trace position) = .ok next) :
    (knowledge.Races place trace position ∧
      next.knowledge.backlog.isConstructed (trace position).state
        (trace place.position).event = true) ∨
    (¬knowledge.Races place trace position ∧
      (knowledge.summary.footprintAt (trace position).state (trace place.position).event = .empty →
        next.Follows knowledge place trace position)) := by
  obtain ⟨transition, htransition, hnext⟩ := visit_cases hvisit
  have hplace : walk.knowledge.log.transition?
      (knowledge.frameAt place trace position).place = some (trace position) := by
    rw [hlog]
    exact hline.transition?_eq position hposition
  obtain rfl := Option.some.inj (hplace.symm.trans htransition)
  rcases hnext with ⟨hnone, rfl⟩ | ⟨rest, hsome, rfl⟩
  · refine Or.inr ⟨(conflictRest?_frameAt_eq_none_iff hlog).mp hnone, fun hunknown => ?_⟩
    exact h.absorb hline hposition hpredecessors hnonempty hunknown
  · refine Or.inl ⟨?_, ?_⟩
    · by_contra hrace
      have hnone : ({ walk with stack := [] } : Walk).conflictRest?
          (knowledge.frameAt place trace position) (trace position) = none :=
        (conflictRest?_frameAt_eq_none_iff hlog).mpr hrace
      simp [hnone] at hsome
    · exact (Backlog.isConstructed_add_iff rfl).mpr (Or.inr ⟨rfl, rfl⟩)

/-- How far a walk along a line has come: it called for the nearest race, or it met none and follows
the line. -/
def Traces (walk : Walk) (knowledge : Knowledge) (place : TransitionRef)
    (trace : Nat → Transition) : Prop :=
  (∃ nearest, knowledge.NearestRace place trace nearest ∧
    walk.knowledge.backlog.isConstructed (trace nearest).state
      (trace place.position).event = true) ∨
  ∃ remaining ≤ place.position + 1,
    (∀ position < place.position, remaining ≤ position →
      ¬knowledge.Races place trace position) ∧
    walk.Follows knowledge place trace remaining

/-- A visit brings it further, if the states that no race parts from the place know nothing of the
event. -/
theorem Traces.visit (h : walk.Traces knowledge place trace) (hline : knowledge.Line place trace)
    (hlog : walk.knowledge.log = knowledge.log)
    (hpredecessors : walk.knowledge.predecessors = knowledge.predecessors)
    (hnonempty : (knowledge.log.recordedAt place).isEmpty = false)
    (hunknown : ∀ position ≤ place.position,
      (∀ later < place.position, position ≤ later → ¬knowledge.Races place trace later) →
        knowledge.summary.footprintAt (trace position).state (trace place.position).event = .empty)
    {stack : List Frame} (hstack : walk.stack = frame :: stack)
    (hvisit : { walk with stack }.visit reference frame = .ok next) :
    next.Traces knowledge place trace := by
  rcases h with ⟨nearest, hnearest, hconstructed⟩ | ⟨remaining, hremaining, hclear, hfollows⟩
  · have hpopped : ({ walk with stack } : Walk).knowledge.backlog.isConstructed
        (trace nearest).state (trace place.position).event = true := hconstructed
    exact Or.inl ⟨nearest, hnearest, isConstructed_of_visit hpopped hvisit⟩
  · -- No race was met so far, so one that is met now is the nearest.
    have hahead := hfollows.stack_eq.symm.trans hstack
    cases remaining with
    | zero => simp [Knowledge.framesAhead] at hahead
    | succ position =>
      obtain ⟨rfl, rfl⟩ := List.cons.inj hahead
      have hposition : position ≤ place.position := by omega
      obtain ⟨hrace, hconstructed⟩ | ⟨hrace, hnext⟩ :=
        hfollows.visit hline hposition hlog hpredecessors hnonempty hvisit
      · have hbefore : position ≠ place.position := by
          rintro rfl
          exact Knowledge.not_races_self hrace
        refine Or.inl ⟨position, ⟨by omega, hrace, fun later hlater hbehind => ?_⟩, hconstructed⟩
        exact hclear later hlater hbehind
      · have hclear : ∀ later < place.position, position ≤ later →
            ¬knowledge.Races place trace later := by
          intro later hlater hbehind
          by_cases hsame : later = position
          · exact hsame ▸ hrace
          · exact hclear later hlater (by omega)
        exact Or.inr ⟨position, by omega, hclear, hnext (hunknown position hposition hclear)⟩

end Walk

namespace Knowledge

variable {knowledge : Knowledge} {place : TransitionRef} {trace : Nat → Transition}

/-- Completing an event that recorded accesses sends them out from its place. -/
theorem Line.eventCompleted_eq (h : knowledge.Line place trace)
    (hnonempty : (knowledge.log.recordedAt place).isEmpty = false) (reference : List Event) :
    knowledge.eventCompleted place reference =
      knowledge.propagate (knowledge.frameAt place trace place.position) reference := by
  have hplace := h.transition?_eq place.position (Nat.le_refl _)
  unfold eventCompleted frameAt
  cases hfootprint : knowledge.log.footprint? place with
  | none =>
    rw [ExecutionLog.recordedAt, hfootprint] at hnonempty
    exact absurd hnonempty (by decide)
  | some footprint =>
    simp only [Walk.transitionAt_eq hplace, ExecutionLog.recordedAt, hfootprint, Option.getD_some,
      bne_self_eq_false]

/-- The walk from a place on a line comes to its end, and by then it called for the nearest race or
followed the line to its first state. -/
theorem Line.eventCompleted_traces (h : knowledge.Line place trace)
    (hnonempty : (knowledge.log.recordedAt place).isEmpty = false)
    (hunknown : ∀ position ≤ place.position,
      (∀ later < place.position, position ≤ later → ¬knowledge.Races place trace later) →
        knowledge.summary.footprintAt (trace position).state (trace place.position).event = .empty)
    (reference : List Event) :
    ∃ last : Walk,
      knowledge.eventCompleted place reference = (last.knowledge, .ok last.created) ∧
        last.stack = [] ∧ last.Traces knowledge place trace := by
  rw [h.eventCompleted_eq hnonempty]
  have hstart : (Walk.start knowledge (knowledge.frameAt place trace place.position)).Gathering
      knowledge (·.IsUpTo place) reference := by
    refine ⟨.refl knowledge _ reference, fun frame hframe => ?_⟩
    rw [List.mem_singleton.mp hframe]
    exact ⟨place.position, Nat.le_refl _, rfl⟩
  obtain ⟨last, hpropagate, hempty, -, htraces⟩ := propagate_induction
    (motive := fun walk => walk.Gathering knowledge (·.IsUpTo place) reference ∧
      walk.Traces knowledge place trace)
    ⟨hstart, Or.inr ⟨place.position + 1, Nat.le_refl _, by omega,
      Walk.follows_start knowledge place trace⟩⟩
    fun walk frame stack hstack hwalk => by
      obtain ⟨hgathering, htraces⟩ := hwalk
      have hlog := hgathering.gathers.log_eq
      have hframe := hgathering.stands_of_frame frame (by simp [hstack])
      obtain ⟨position, hposition, hat⟩ := hframe
      have hplace : ({ walk with stack } : Walk).knowledge.log.transition? frame.place =
          some (trace position) := by
        rw [hat, hlog]
        exact h.transition?_eq position hposition
      obtain ⟨next, hvisit⟩ := Walk.exists_visit_of_transition? hplace reference
      exact ⟨next, hvisit, hgathering.visit hstack (h.leads ⟨position, hposition, hat⟩) hvisit,
        htraces.visit h hlog hgathering.gathers.predecessors_eq hnonempty hunknown hstack hvisit⟩
  exact ⟨last, hpropagate, hempty, htraces⟩

/-- Completing the event at the end of a line does not fail. If the states past the nearest race
know nothing of the event, it is to be tried at the state of the race; if there is no race and no
state knows anything, nothing is called for and all states get to know what was recorded of the
event. -/
theorem nearest_race_is_called_for (h : knowledge.Line place trace) (reference : List Event) :
    (∀ nearest, knowledge.NearestRace place trace nearest →
      (∀ position ≤ place.position, nearest < position →
        knowledge.summary.footprintAt (trace position).state (trace place.position).event =
          .empty) →
      ∃ later created, knowledge.eventCompleted place reference = (later, .ok created) ∧
        later.backlog.isConstructed (trace nearest).state (trace place.position).event = true) ∧
    ((∀ position < place.position, ¬knowledge.Races place trace position) →
      (∀ position ≤ place.position,
        knowledge.summary.footprintAt (trace position).state (trace place.position).event =
          .empty) →
      ∃ later, knowledge.eventCompleted place reference = (later, .ok 0) ∧
        later.backlog = knowledge.backlog ∧
          ∀ position ≤ place.position, ∀ access ∈ knowledge.log.recordedAt place,
            access ∈ later.summary.footprintAt (trace position).state
              (trace place.position).event) := by
  constructor
  · intro nearest hnearest hunknown
    have hconflict := hnearest.races.2
    rw [← Footprint.isSome_takeConflict?, Option.isSome_iff_ne_none] at hconflict
    have hnonempty := Footprint.isEmpty_eq_false_of_takeConflict?_ne_none hconflict
    obtain ⟨last, hcompleted, hempty, htraces⟩ := h.eventCompleted_traces hnonempty
      (fun position hposition hclear => hunknown position hposition (by
        by_contra hbefore
        exact hclear nearest hnearest.lt (by omega) hnearest.races)) reference
    refine ⟨last.knowledge, last.created, hcompleted, ?_⟩
    rcases htraces with ⟨other, hother, hconstructed⟩ | ⟨remaining, -, hclear, hfollows⟩
    · rwa [hnearest.unique hother]
    · have hnone := hfollows.stack_eq.symm.trans hempty
      cases remaining with
      | zero => exact absurd hnearest.races (hclear nearest hnearest.lt (Nat.zero_le _))
      | succ position => simp [framesAhead] at hnone
  · intro hclear hunknown
    cases hnonempty : (knowledge.log.recordedAt place).isEmpty with
    | true =>
      -- Without accesses the walk ends at the place itself, and there is nothing to get to know.
      have hnone := Footprint.isEmpty_iff.mp hnonempty
      have hplace := h.transition?_eq place.position (Nat.le_refl _)
      have hretains : knowledge.Retains place (trace place.position) := by
        intro recorded hrecorded access haccess
        refine absurd haccess ?_
        simpa [ExecutionLog.recordedAt, hrecorded] using hnone access
      exact ⟨knowledge, hretains.eventCompleted_eq hplace reference, rfl,
        fun position _ access haccess => absurd haccess (hnone access)⟩
    | false =>
      obtain ⟨last, hcompleted, hempty, htraces⟩ := h.eventCompleted_traces hnonempty
        (fun position hposition _ => hunknown position hposition) reference
      rcases htraces with ⟨nearest, hnearest, -⟩ | ⟨remaining, -, -, hfollows⟩
      · exact absurd hnearest.races (hclear nearest hnearest.lt)
      · have hnone := hfollows.stack_eq.symm.trans hempty
        cases remaining with
        | succ position => simp [framesAhead] at hnone
        | zero =>
          refine ⟨last.knowledge, ?_, hfollows.backlog_eq, fun position hposition => ?_⟩
          · rw [hcompleted, hfollows.created_eq]
          · exact hfollows.delivered position (Nat.zero_le _) hposition

/-- Events 0, 2 and 1 write one field, and then event 1 does so once more. -/
def racing : Execution :=
  let footprint := Footprint.ofList [⟨.write, "x", ⟨1⟩⟩]
  let transitions : List Transition :=
    [⟨⟨0⟩, ⟨1⟩, none⟩, ⟨⟨2⟩, ⟨2⟩, none⟩, ⟨⟨1⟩, ⟨3⟩, none⟩, ⟨⟨1⟩, ⟨4⟩, none⟩]
  (List.range 4).foldl (fun execution position => execution.setFootprint position footprint)
    (transitions.foldl Execution.push (.start none))

/-- Event 0 writes a field twice, and in between event 1 writes another one. -/
def quiet : Execution :=
  let footprint := Footprint.ofList [⟨.write, "x", ⟨1⟩⟩]
  let transitions : List Transition := [⟨⟨0⟩, ⟨5⟩, none⟩, ⟨⟨1⟩, ⟨6⟩, none⟩, ⟨⟨0⟩, ⟨7⟩, none⟩]
  (((transitions.foldl Execution.push (.start none)).setFootprint 0 footprint).setFootprint 1
    (Footprint.ofList [⟨.write, "y", ⟨1⟩⟩])).setFootprint 2 footprint

/-- Both executions, each the only way into its states. The first state of one of them knows event 1
already. -/
def racingAndQuiet : Knowledge where
  log := (ExecutionLog.empty.add racing).add quiet
  summary := Summary.empty.insert ⟨1⟩ ⟨1⟩ (Footprint.ofList [⟨.write, "x", ⟨1⟩⟩])
  reached := .empty
  predecessors :=
    [(⟨2⟩, ⟨⟨0⟩, 0⟩), (⟨3⟩, ⟨⟨0⟩, 1⟩), (⟨4⟩, ⟨⟨0⟩, 2⟩), (⟨6⟩, ⟨⟨1⟩, 0⟩), (⟨7⟩, ⟨⟨1⟩, 1⟩)].foldl
      (fun predecessors (state, place) => predecessors.record state place) .empty
  backlog := .empty

/-- The last event of the first execution is to be tried before event 2, which wrote the field just
before it; that of the second execution calls for nothing and becomes known in all three states. -/
theorem nearest_race_is_called_for_racingAndQuiet :
    (∃ later created,
      racingAndQuiet.eventCompleted ⟨⟨0⟩, 3⟩ [⟨0⟩, ⟨1⟩, ⟨2⟩] = (later, .ok created) ∧
        later.backlog.isConstructed ⟨2⟩ ⟨1⟩ = true) ∧
    ∃ later, racingAndQuiet.eventCompleted ⟨⟨1⟩, 2⟩ [⟨0⟩, ⟨1⟩, ⟨2⟩] = (later, .ok 0) ∧
      later.backlog = racingAndQuiet.backlog ∧
        ∀ state ∈ ([⟨5⟩, ⟨6⟩, ⟨7⟩] : List StateId),
          ⟨.write, "x", ⟨1⟩⟩ ∈ later.summary.footprintAt state ⟨0⟩ := by
  have hracing : racingAndQuiet.Line ⟨⟨0⟩, 3⟩ (racing.trace.getD · default) :=
    ⟨by decide +kernel, by decide +kernel, by decide +kernel, by decide +kernel⟩
  have hquiet : racingAndQuiet.Line ⟨⟨1⟩, 2⟩ (quiet.trace.getD · default) :=
    ⟨by decide +kernel, by decide +kernel, by decide +kernel, by decide +kernel⟩
  have hnearest : racingAndQuiet.NearestRace ⟨⟨0⟩, 3⟩ (racing.trace.getD · default) 1 :=
    ⟨by decide, by decide +kernel, by decide +kernel⟩
  obtain ⟨later, hcompleted, hbacklog, hknown⟩ :=
    (nearest_race_is_called_for hquiet [⟨0⟩, ⟨1⟩, ⟨2⟩]).2 (by decide +kernel) (by decide +kernel)
  refine ⟨(nearest_race_is_called_for hracing [⟨0⟩, ⟨1⟩, ⟨2⟩]).1 1 hnearest (by decide +kernel),
    later, hcompleted, hbacklog, fun state hstate => ?_⟩
  have hrecorded : (⟨.write, "x", ⟨1⟩⟩ : Access) ∈
      racingAndQuiet.log.recordedAt ⟨⟨1⟩, 2⟩ := by decide +kernel
  simp only [List.mem_cons, List.not_mem_nil, or_false] at hstate
  rcases hstate with rfl | rfl | rfl
  · exact hknown 0 (by decide) _ hrecorded
  · exact hknown 1 (by decide) _ hrecorded
  · exact hknown 2 (by decide) _ hrecorded

end Knowledge

end EventOrder
