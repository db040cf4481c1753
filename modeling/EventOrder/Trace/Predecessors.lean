import EventOrder.Identifier

/-!
# Predecessors

For each state, the places whose transition led into it, in the order in which they were first
recorded.
-/

namespace EventOrder

/-- The recorded predecessors of every state. -/
structure Predecessors where
  /-- The places that lead into a state. -/
  into : Std.ExtTreeMap StateId (Array TransitionRef)
deriving DecidableEq, Inhabited

namespace Predecessors

/-- The index without any record. -/
def empty : Predecessors := ⟨∅⟩

/-- The places that lead into a state, oldest record first. -/
def of (predecessors : Predecessors) (state : StateId) : List TransitionRef :=
  (predecessors.into[state]?.getD #[]).toList

/-- Whether the place is recorded as leading into the state. -/
def isRecorded (predecessors : Predecessors) (state : StateId) (place : TransitionRef) : Bool :=
  (predecessors.into[state]?.getD #[]).contains place

/-- Records that a place leads into a state; a repeated record changes nothing. -/
def record (predecessors : Predecessors) (state : StateId) (place : TransitionRef) : Predecessors :=
  if predecessors.isRecorded state place then predecessors
  else ⟨predecessors.into.insert state ((predecessors.into[state]?.getD #[]).push place)⟩

/-- How many records there are. -/
def size (predecessors : Predecessors) : Nat :=
  predecessors.into.foldl (fun total _ places => total + places.size) 0

end Predecessors

end EventOrder
