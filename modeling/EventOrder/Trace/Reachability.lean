import EventOrder.Identifier

/-!
# Reachability

For each state, the places at which it was left. States are numbered in the order of their
discovery, so a state is taken to reach every state with a number at least its own.
-/

namespace EventOrder

/-- The places at which each state was left. -/
structure Reachability where
  /-- The places recorded at a state. -/
  leaving : Std.ExtTreeMap StateId (Std.ExtTreeSet TransitionRef)
deriving DecidableEq, Inhabited

namespace Reachability

/-- The graph without any record. -/
def empty : Reachability := ⟨∅⟩

/-- Whether the place is recorded at the state. -/
def isRecorded (graph : Reachability) (state : StateId) (place : TransitionRef) : Bool :=
  (graph.leaving[state]?.getD ∅).contains place

/-- Records a place at a state. -/
def record (graph : Reachability) (state : StateId) (place : TransitionRef) : Reachability :=
  ⟨graph.leaving.insert state ((graph.leaving[state]?.getD ∅).insert place)⟩

/-- The places recorded at any state numbered `state` or higher. -/
def reachableFrom (graph : Reachability) (state : StateId) : Std.ExtTreeSet TransitionRef :=
  graph.leaving.foldl
    (fun places left here => if state.number ≤ left.number then places ∪ here else places) ∅

/-- The places recorded at a state, or the fallback alone for a state without records. -/
def leavingAt (graph : Reachability) (state : StateId) (fallback : TransitionRef) :
    Std.ExtTreeSet TransitionRef :=
  graph.leaving[state]?.getD {fallback}

/-- The highest state with a record. -/
def highest? (graph : Reachability) : Option StateId := graph.leaving.maxKey?

/-- How many states have a record. -/
def stateCount (graph : Reachability) : Nat := graph.leaving.size

end Reachability

end EventOrder
