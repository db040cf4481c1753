import EventOrder.Race.Knowledge

/-!
# The backward walk

When an event completes, its footprint travels backwards along the recorded predecessors. At each
place it is absorbed into the summary of the place's state, and only what was news there travels
on. Where it conflicts with the accesses recorded at the place, the place's state is to be tried
with the event first, and from there on the place's own event is the one that travels.

Each place is expanded once per walk, so the number of frames taken off the stack is bounded by
the number of predecessor records.
-/

namespace EventOrder

/-- A footprint on its way to a place. -/
structure Frame where
  /-- The place to be visited. -/
  place : TransitionRef
  /-- The event whose accesses travel. -/
  event : Event
  /-- The accesses. -/
  footprint : Footprint
  /-- Whether the accesses are checked against those recorded at the place. -/
  check : Bool
deriving DecidableEq, Inhabited

/-- A walk in progress. -/
structure Walk where
  /-- What is known so far. -/
  knowledge : Knowledge
  /-- The places already expanded. -/
  visited : Std.ExtTreeSet TransitionRef
  /-- How many backtrack points were admitted. -/
  created : Nat
  /-- The frames to be visited, next one first. -/
  stack : List Frame
deriving DecidableEq, Inhabited

namespace Walk

/-- The walk that starts from one frame. -/
def start (knowledge : Knowledge) (root : Frame) : Walk := ⟨knowledge, ∅, 0, [root]⟩

/-- Takes at most one conflict between the frame and its place, calls for the reordering, and
hands over to the event that was taken at the place. -/
def settleConflict (walk : Walk) (reference : List Event) (frame : Frame) :
    Except ExplorationError (Walk × Frame) := do
  if frame.check then
    match ← walk.knowledge.takeConflict? frame.event frame.place frame.footprint with
    | none => return (walk, frame)
    | some footprint =>
      let transition ← walk.knowledge.transitionAt frame.place
      let (admitted, knowledge) ← walk.knowledge.callFor frame.event frame.place reference
      let created := if admitted then walk.created + 1 else walk.created
      return ({ walk with knowledge, created }, { frame with event := transition.event, footprint })
  else return (walk, frame)

/-- Absorbs the frame's accesses at the state of its place and sends what was news on to every
predecessor of that state, first recorded first, unless the place was expanded before. -/
def absorb (walk : Walk) (state : StateId) (frame : Frame) : Walk :=
  let (news, summary) := walk.knowledge.summary.absorb state frame.event frame.footprint
  let knowledge := { walk.knowledge with summary }
  let onward :=
    if walk.visited.contains frame.place || news.isEmpty then []
    else (walk.knowledge.predecessors.of state).map fun place => ⟨place, frame.event, news, true⟩
  { walk with
    knowledge
    visited := walk.visited.insert frame.place
    stack := onward ++ walk.stack }

/-- Visits one frame. -/
def visit (walk : Walk) (reference : List Event) (frame : Frame) :
    Except ExplorationError Walk := do
  let transition ← walk.knowledge.transitionAt frame.place
  let (walk, frame) ← walk.settleConflict reference frame
  return walk.absorb transition.state frame

/-- Visits frames until none is left, one fails, or as many as given were visited. -/
def run (reference : List Event) : Nat → Walk → Attempt Walk Unit
  | 0, walk => (walk, .ok ())
  | steps + 1, walk =>
    match walk.stack with
    | [] => (walk, .ok ())
    | frame :: stack =>
      match { walk with stack }.visit reference frame with
      | .ok walk => run reference steps walk
      | .error error => (walk, .error error)

end Walk

namespace Knowledge

/-- More frames than any walk over this knowledge visits: the root, and for the root's place and for
every recorded predecessor its expansion into at most all records. -/
def walkBound (knowledge : Knowledge) : Nat :=
  (knowledge.predecessors.size + 1) * knowledge.predecessors.size + 2

/-- Walks backwards from a frame; answers how many backtrack points were admitted. -/
def propagate (knowledge : Knowledge) (root : Frame) (reference : List Event) :
    Attempt Knowledge Nat :=
  match (Walk.start knowledge root).run reference knowledge.walkBound with
  | (walk, .ok ()) => (walk.knowledge, .ok walk.created)
  | (walk, .error error) => (walk.knowledge, .error error)

/-- Propagates the accesses of the event completed at a place, if any were recorded there; answers
how many backtrack points were admitted. -/
def eventCompleted (knowledge : Knowledge) (place : TransitionRef) (reference : List Event) :
    Attempt Knowledge Nat :=
  match knowledge.log.footprint? place with
  | none => (knowledge, .ok 0)
  | some footprint =>
    match knowledge.transitionAt place with
    | .error error => (knowledge, .error error)
    | .ok transition => knowledge.propagate ⟨place, transition.event, footprint, false⟩ reference

/-- Replays the given events of a state, as far as they are summarised there, against a place. -/
def replay (state : StateId) (place : TransitionRef) (reference : List Event) :
    List Event → Knowledge → Nat → Attempt Knowledge Nat
  | [], knowledge, created => (knowledge, .ok created)
  | event :: events, knowledge, created =>
    match knowledge.summary.get? state event with
    | none => replay state place reference events knowledge created
    | some footprint =>
      match knowledge.propagate ⟨place, event, footprint, true⟩ reference with
      | (knowledge, .ok more) => replay state place reference events knowledge (created + more)
      | (knowledge, .error error) => (knowledge, .error error)

/-- A state was met again after the place: every event summarised there could follow the place as
well, so each is replayed against it. Answers how many backtrack points were admitted. -/
def stateRevisited (knowledge : Knowledge) (state : StateId) (place : TransitionRef)
    (reference : List Event) : Attempt Knowledge Nat :=
  replay state place reference (knowledge.summary.eventsAt state) knowledge 0

end Knowledge

end EventOrder
