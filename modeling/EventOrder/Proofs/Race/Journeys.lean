import EventOrder.Proofs.Race.Learning

/-!
# The walks that are made

A walk is settled by the frame it sets out with, the order it takes as its reference and what is
known when it sets out. This file lists the walks that are made when an event completes and when a
state is met again.

A walk expands each place once. What it absorbs at a place that it expanded before is stranded
there: it is not sent on to the predecessors of the place's state.
-/

namespace EventOrder

/-- An access that was absorbed at a state and not sent on to a place that leads there. -/
structure Stranded where
  /-- The state. -/
  state : StateId
  /-- The event that the access is summarised for. -/
  event : Event
  /-- The access. -/
  access : Access
  /-- The place that leads into the state. -/
  place : TransitionRef
deriving DecidableEq, Inhabited

namespace Walk

/-- What a visit strands: the news that it absorbs at a place that was expanded before. -/
def strandedBy (walk : Walk) (reference : List Event) (frame : Frame) : List Stranded :=
  match walk.knowledge.transitionAt frame.place, walk.settleConflict reference frame with
  | .ok transition, .ok (settled, carried) =>
    let (news, _) :=
      settled.knowledge.summary.absorb transition.state carried.event carried.footprint
    if walk.visited.contains frame.place then
      (settled.knowledge.predecessors.of transition.state).flatMap fun place =>
        news.toList.map fun access => ⟨transition.state, carried.event, access, place⟩
    else []
  | _, _ => []

/-- What a walk strands in so many visits. -/
def stranded (reference : List Event) : Nat → Walk → List Stranded
  | 0, _ => []
  | steps + 1, walk =>
    match walk.stack with
    | [] => []
    | frame :: stack =>
      match { walk with stack }.visit reference frame with
      | .ok next => { walk with stack }.strandedBy reference frame ++ stranded reference steps next
      | .error _ => []

variable {walk : Walk} {frame : Frame} {transition : Transition} {reference : List Event}
  {place : TransitionRef}

/-- Without a conflict the news of the frame itself are stranded. -/
theorem mem_strandedBy_of_conflictRest?_eq_none
    (hplace : walk.knowledge.log.transition? frame.place = some transition)
    (hrest : walk.conflictRest? frame transition = none)
    (hvisited : walk.visited.contains frame.place = true)
    (hleads : place ∈ walk.knowledge.predecessors.of transition.state) {access : Access}
    (hnews : access ∈
      (walk.knowledge.summary.absorb transition.state frame.event frame.footprint).1) :
    ⟨transition.state, frame.event, access, place⟩ ∈ walk.strandedBy reference frame := by
  simp [strandedBy, transitionAt_eq hplace, settleConflict_of_conflictRest?_eq_none hplace hrest,
    hvisited, hleads, Footprint.mem_toList, hnews]

/-- With a conflict the news of what is left are stranded, for the event taken at the place. -/
theorem mem_strandedBy_of_conflictRest?_eq_some {rest : Footprint}
    (hplace : walk.knowledge.log.transition? frame.place = some transition)
    (hrest : walk.conflictRest? frame transition = some rest)
    (hvisited : walk.visited.contains frame.place = true)
    (hleads : place ∈ walk.knowledge.predecessors.of transition.state) {access : Access}
    (hnews : access ∈
      (walk.knowledge.summary.absorb transition.state transition.event rest).1) :
    ⟨transition.state, transition.event, access, place⟩ ∈ walk.strandedBy reference frame := by
  simp [strandedBy, transitionAt_eq hplace, settleConflict_of_conflictRest?_eq_some hplace hrest,
    hvisited, hleads, Footprint.mem_toList, hnews, call]

end Walk

/-- A walk that is made. -/
structure Journey where
  /-- What is known when it sets out. -/
  knowledge : Knowledge
  /-- The frame it sets out with. -/
  root : Frame
  /-- The order it takes as its reference. -/
  reference : List Event
deriving DecidableEq, Inhabited

/-- What a walk strands. -/
def Journey.stranded (journey : Journey) : List Stranded :=
  (Walk.start journey.knowledge journey.root).stranded journey.reference
    journey.knowledge.walkBound

namespace Knowledge

/-- The walk that completing the event at a place makes, if anything was recorded there. -/
def completion (knowledge : Knowledge) (place : TransitionRef) (reference : List Event) :
    List Journey :=
  match knowledge.log.footprint? place, knowledge.transitionAt place with
  | some footprint, .ok transition =>
    [⟨knowledge, ⟨place, transition.event, footprint, false⟩, reference⟩]
  | _, _ => []

/-- The walks that replaying the given events of a state against a place makes. -/
def replays (state : StateId) (place : TransitionRef) (reference : List Event) :
    List Event → Knowledge → List Journey
  | [], _ => []
  | event :: events, knowledge =>
    match knowledge.summary.get? state event with
    | none => replays state place reference events knowledge
    | some footprint =>
      let root : Frame := ⟨place, event, footprint, true⟩
      ⟨knowledge, root, reference⟩ ::
        match knowledge.propagate root reference with
        | (knowledge, .ok _) => replays state place reference events knowledge
        | (_, .error _) => []

/-- The walks that meeting a state again after a place makes. -/
def revisits (knowledge : Knowledge) (state : StateId) (place : TransitionRef)
    (reference : List Event) : List Journey :=
  replays state place reference (knowledge.summary.eventsAt state) knowledge

end Knowledge

end EventOrder
