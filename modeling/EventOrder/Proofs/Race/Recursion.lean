import EventOrder.Proofs.Race.Propagation

/-!
# The walk as a recursion

A walk keeps the frames to be visited on a stack. This file defines the same walk by recursion: a
place is visited, then each predecessor of its state in turn, with everything that lies behind it,
before the next one. The two agree on all knowledge, with cycles among the predecessors or places
that hold no transition as well: the stack holds the frames that the recursion has still to come
back to, next one first.

The recursion is over a graph that may have cycles, and only the places visited so far cut them.
It is therefore given by its calls and their results, and it is part of the agreement that each call
comes to its end, with one result.
-/

namespace EventOrder

/-- What a recursive walk has done so far. -/
structure Trail where
  /-- What is known so far. -/
  knowledge : Knowledge
  /-- The places already expanded. -/
  visited : Std.ExtTreeSet TransitionRef
  /-- How many backtrack points were admitted. -/
  created : Nat

namespace Trail

/-- Nothing was visited yet. -/
def start (knowledge : Knowledge) : Trail := ⟨knowledge, ∅, 0⟩

/-- Takes one conflict with the accesses recorded at its place out of a frame that is checked. Its
event is called for there, and the event taken there goes on with what is left. -/
def settle (trail : Trail) (reference : List Event) (frame : Frame) (transition : Transition) :
    Trail × Frame :=
  let rest? :=
    if frame.check = true ∧ transition.event ≠ frame.event then
      (trail.knowledge.log.footprint? frame.place).bind frame.footprint.takeConflict?
    else none
  match rest? with
  | none => (trail, frame)
  | some footprint =>
    let (admitted, backlog) := trail.knowledge.backlog.add
      (.reorder transition.state frame.event reference frame.place)
    ({ trail with
        knowledge := { trail.knowledge with backlog }
        created := if admitted then trail.created + 1 else trail.created },
      { frame with event := transition.event, footprint })

/-- What visiting a place that holds a transition comes to: the frames for the predecessors of its
state, each with what was new of the accesses, and what the visit itself has done. No predecessor
follows if the place was visited before or nothing was new. -/
def visit (trail : Trail) (reference : List Event) (frame : Frame) (transition : Transition) :
    List Frame × Trail :=
  let (trail, frame) := trail.settle reference frame transition
  let (news, summary) :=
    trail.knowledge.summary.absorb transition.state frame.event frame.footprint
  let absorbed : Trail :=
    { trail with
      knowledge := { trail.knowledge with summary }
      visited := trail.visited.insert frame.place }
  if trail.visited.contains frame.place || news.isEmpty then ([], absorbed)
  else
    ((trail.knowledge.predecessors.of transition.state).map fun place =>
      ⟨place, frame.event, news, true⟩, absorbed)

/-- The recursive walk, from its calls to their results: frames are visited one after the other,
each with all that lies behind its place, until a place is met that holds no transition. -/
inductive Descends (reference : List Event) : List Frame → Trail → Attempt Trail Unit → Prop
  /-- All frames were visited. -/
  | done {trail : Trail} : Descends reference [] trail (trail, .ok ())
  /-- The place of the next frame holds no transition. -/
  | unknown {frame : Frame} {frames : List Frame} {trail : Trail}
      (hnone : trail.knowledge.log.transition? frame.place = none) :
      Descends reference (frame :: frames) trail (trail, .error (.unknownTransition frame.place))
  /-- The recursion fails behind the next frame. -/
  | fails {frame : Frame} {frames : List Frame} {trail last : Trail} {transition : Transition}
      {error : ExplorationError}
      (hplace : trail.knowledge.log.transition? frame.place = some transition)
      (hbehind : Descends reference (trail.visit reference frame transition).1
        (trail.visit reference frame transition).2 (last, .error error)) :
      Descends reference (frame :: frames) trail (last, .error error)
  /-- The recursion comes back from behind the next frame and turns to the others. -/
  | returns {frame : Frame} {frames : List Frame} {trail later : Trail} {transition : Transition}
      {attempt : Attempt Trail Unit}
      (hplace : trail.knowledge.log.transition? frame.place = some transition)
      (hbehind : Descends reference (trail.visit reference frame transition).1
        (trail.visit reference frame transition).2 (later, .ok ()))
      (hothers : Descends reference frames later attempt) :
      Descends reference (frame :: frames) trail attempt

variable {reference : List Event} {frames before after : List Frame} {trail : Trail}
  {attempt other : Attempt Trail Unit}

/-- The recursive walk has one result. -/
theorem Descends.unique (h : Descends reference frames trail attempt)
    (hother : Descends reference frames trail other) : attempt = other := by
  induction h generalizing other with
  | done =>
    cases hother with
    | done => rfl
  | unknown hnone =>
    cases hother with
    | unknown _ => rfl
    | fails hplace _ => simp [hnone] at hplace
    | returns hplace _ _ => simp [hnone] at hplace
  | fails hplace _ ih =>
    cases hother with
    | unknown hnone => simp [hnone] at hplace
    | fails hplace' hbehind =>
      obtain rfl := Option.some.inj (hplace.symm.trans hplace')
      exact ih hbehind
    | returns hplace' hbehind _ =>
      obtain rfl := Option.some.inj (hplace.symm.trans hplace')
      cases ih hbehind
  | returns hplace _ _ ihbehind ihothers =>
    cases hother with
    | unknown hnone => simp [hnone] at hplace
    | fails hplace' hbehind =>
      obtain rfl := Option.some.inj (hplace.symm.trans hplace')
      cases ihbehind hbehind
    | returns hplace' hbehind hothers =>
      obtain rfl := Option.some.inj (hplace.symm.trans hplace')
      obtain rfl := congrArg Prod.fst (ihbehind hbehind)
      exact ihothers hothers

/-- Visiting frames and then others is visiting the others after them, unless the first fail. -/
theorem Descends.of_append (h : Descends reference (before ++ after) trail attempt) :
    (∃ later, Descends reference before trail (later, .ok ()) ∧
      Descends reference after later attempt) ∨
    ∃ last error, attempt = (last, .error error) ∧
      Descends reference before trail (last, .error error) := by
  induction before generalizing trail with
  | nil => exact .inl ⟨trail, .done, h⟩
  | cons frame before ih =>
    cases h with
    | unknown hnone => exact .inr ⟨_, _, rfl, .unknown hnone⟩
    | fails hplace hbehind => exact .inr ⟨_, _, rfl, .fails hplace hbehind⟩
    | returns hplace hbehind hothers =>
      obtain ⟨later, hbefore, hafter⟩ | ⟨last, error, rfl, hbefore⟩ := ih hothers
      · exact .inl ⟨later, .returns hplace hbehind hbefore, hafter⟩
      · exact .inr ⟨last, error, rfl, .returns hplace hbehind hbefore⟩

/-- What lies behind a frame may be visited before the other frames or together with them. -/
theorem Descends.cons {frame : Frame} {transition : Transition}
    (hplace : trail.knowledge.log.transition? frame.place = some transition)
    (h : Descends reference ((trail.visit reference frame transition).1 ++ frames)
      (trail.visit reference frame transition).2 attempt) :
    Descends reference (frame :: frames) trail attempt := by
  obtain ⟨later, hbehind, hothers⟩ | ⟨last, error, rfl, hbehind⟩ := h.of_append
  · exact .returns hplace hbehind hothers
  · exact .fails hplace hbehind

end Trail

namespace Walk

variable {walk : Walk} {frame : Frame} {reference : List Event} {transition : Transition}

/-- What a walk has done so far. -/
def trail (walk : Walk) : Trail := ⟨walk.knowledge, walk.visited, walk.created⟩

@[simp]
theorem trail_knowledge (walk : Walk) : walk.trail.knowledge = walk.knowledge := rfl

@[simp]
theorem trail_visited (walk : Walk) : walk.trail.visited = walk.visited := rfl

/-- Without a conflict the recursion has nothing to settle. -/
private theorem settle_of_conflictRest?_eq_none
    (hrest : walk.conflictRest? frame transition = none) :
    walk.trail.settle reference frame transition = (walk.trail, frame) := by
  unfold conflictRest? at hrest
  simp only [Trail.settle, trail_knowledge, hrest]

/-- With a conflict the recursion calls for the reordering that the walk calls for. -/
private theorem settle_of_conflictRest?_eq_some {rest : Footprint}
    (hrest : walk.conflictRest? frame transition = some rest) :
    walk.trail.settle reference frame transition =
      ((walk.call (.reorder transition.state frame.event reference frame.place)).trail,
        { frame with event := transition.event, footprint := rest }) := by
  unfold conflictRest? at hrest
  simp only [Trail.settle, trail_knowledge, hrest]
  rfl

/-- A visit of the walk is one of the recursion, and the frames that follow from it are visited
before those that were to be visited already. -/
theorem exists_visit (reference : List Event)
    (hplace : walk.knowledge.log.transition? frame.place = some transition) :
    ∃ next, walk.visit reference frame = .ok next ∧
      next.stack = (walk.trail.visit reference frame transition).1 ++ walk.stack ∧
      next.trail = (walk.trail.visit reference frame transition).2 := by
  have habsorb {called : Walk} {carried : Frame} (hstack : called.stack = walk.stack)
      (hsettle : walk.trail.settle reference frame transition = (called.trail, carried)) :
      (called.absorb transition.state carried).stack =
          (walk.trail.visit reference frame transition).1 ++ walk.stack ∧
        (called.absorb transition.state carried).trail =
          (walk.trail.visit reference frame transition).2 := by
    simp only [Trail.visit, hsettle, absorb, hstack, trail_knowledge, trail_visited]
    split <;> exact ⟨rfl, rfl⟩
  cases hrest : walk.conflictRest? frame transition with
  | none =>
    exact ⟨_, visit_of_conflictRest?_eq_none hplace hrest,
      habsorb rfl (settle_of_conflictRest?_eq_none hrest)⟩
  | some rest =>
    exact ⟨_, visit_of_conflictRest?_eq_some hplace hrest,
      habsorb rfl (settle_of_conflictRest?_eq_some hrest)⟩

/-- A run that has visits enough does what the recursion does with the frames on the stack, and it
leaves none there unless it fails. -/
theorem descends_run (reference : List Event) {places : List TransitionRef} (steps : Nat)
    (walk : Walk)
    (hpredecessors : ∀ place ∈ walk.knowledge.predecessors.places, place ∈ places)
    (hplaces : ∀ frame ∈ walk.stack, frame.place ∈ places)
    (hsteps : walk.framesLeft places < steps) :
    Trail.Descends reference walk.stack walk.trail
        ((walk.run reference steps).1.trail, (walk.run reference steps).2) ∧
      ((walk.run reference steps).2 = .ok () → (walk.run reference steps).1.stack = []) := by
  induction steps generalizing walk with
  | zero => exact absurd hsteps (Nat.not_lt_zero _)
  | succ steps ih =>
    cases hstack : walk.stack with
    | nil => simpa [run, hstack] using Trail.Descends.done
    | cons frame stack =>
      cases hplace : ({ walk with stack } : Walk).knowledge.log.transition? frame.place with
      | none =>
        have hrun : walk.run reference (steps + 1) =
            (walk, .error (.unknownTransition frame.place)) := by
          simp only [run, hstack, visit_of_transition?_eq_none hplace]
        rw [hrun]
        refine ⟨.unknown hplace, fun hok => ?_⟩
        cases hok
      | some transition =>
        obtain ⟨next, hvisit, hnext, htrail⟩ :=
          exists_visit reference hplace
        obtain ⟨hnextPlaces, hfewer⟩ := framesLeft_visit_lt hpredecessors hplaces hstack hvisit
        obtain ⟨state, called, carried, rfl, -, -, -, hsame, -⟩ := exists_absorb_of_visit hvisit
        have hkept : ∀ place ∈ called.knowledge.predecessors.places, place ∈ places :=
          fun place hplace => hpredecessors place (hsame ▸ hplace)
        obtain ⟨hdescends, hempty⟩ := ih (called.absorb state carried) hkept hnextPlaces (by omega)
        have hrun : walk.run reference (steps + 1) =
            (called.absorb state carried).run reference steps := by
          simp only [run, hstack, hvisit]
        rw [hnext, htrail] at hdescends
        rw [hrun]
        exact ⟨.cons hplace hdescends, hempty⟩

end Walk

namespace Knowledge

/-- On all knowledge, a walk from any root in any reference order is the recursive one: the
recursion comes to its end, with one result only, which has the same answer or error, and the same
knowledge, places visited and number of points admitted. Unless it fails, no frame of the walk is
left. -/
theorem propagate_descends (knowledge : Knowledge) (root : Frame) (reference : List Event) :
    ∃ (trail : Trail) (outcome : Except ExplorationError Unit) (last : Walk),
      (∀ attempt, Trail.Descends reference [root] (.start knowledge) attempt ↔
        attempt = (trail, outcome)) ∧
        (Walk.start knowledge root).run reference knowledge.walkBound = (last, outcome) ∧
        last.knowledge = trail.knowledge ∧ last.visited = trail.visited ∧
        last.created = trail.created ∧ (outcome = .ok () → last.stack = []) ∧
        knowledge.propagate root reference =
          (trail.knowledge, outcome.map fun _ => trail.created) := by
  obtain ⟨hdescends, hempty⟩ := Walk.descends_run reference knowledge.walkBound
    (Walk.start knowledge root)
    (fun place hplace => List.mem_cons_of_mem root.place hplace)
    (fun frame hframe => by
      rw [List.mem_singleton.mp hframe]
      exact List.mem_cons_self)
    (knowledge.framesLeft_start_lt_walkBound root)
  refine ⟨_, _, _, fun attempt => ⟨fun hother => hother.unique hdescends, ?_⟩, rfl, rfl, rfl, rfl,
    hempty, ?_⟩
  · rintro rfl
    exact hdescends
  · unfold propagate
    split <;> rename_i hrun <;> rw [hrun] <;> rfl

end Knowledge

end EventOrder
