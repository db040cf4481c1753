import Std.Data.ExtTreeMap
import Std.Data.ExtTreeSet

/-!
# Identifiers

Numbers that name states, events, objects and decision points. Each kind is a type of its own and is
ordered by its number, so a store keyed by it lists its entries in ascending order. The numbers are
natural, without the limit of a machine word.
-/

namespace EventOrder

/-- Keys compared through an injective function are equal when the comparison says so. -/
theorem lawfulEqCmp_compareOn {α β : Type} [Ord β] [Std.LawfulEqOrd β] (f : α → β)
    (injective : ∀ a b, f a = f b → a = b) : Std.LawfulEqCmp (compareOn f) where
  compare_self := by simp [compareOn]
  eq_of_compare {a b} h := injective a b (Std.LawfulEqOrd.eq_of_compare h)

/-- Keys compared by two parts in turn are equal when both parts are. -/
theorem lawfulEqCmp_compareLex {α β γ : Type} [Ord β] [Std.LawfulEqOrd β] [Ord γ]
    [Std.LawfulEqOrd γ] (f : α → β) (g : α → γ) (injective : ∀ a b, f a = f b → g a = g b → a = b) :
    Std.LawfulEqCmp (compareLex (compareOn f) (compareOn g)) where
  compare_self := by simp [compareLex, compareOn]
  eq_of_compare {a b} h := by
    simp only [compareLex, compareOn, Ordering.then_eq_eq] at h
    exact injective a b (Std.LawfulEqOrd.eq_of_compare h.1) (Std.LawfulEqOrd.eq_of_compare h.2)

/-- A program state as the host names it; number 0 is the split state, outside every execution. -/
structure StateId where
  /-- The host's number for the state. -/
  number : Nat
deriving DecidableEq, Repr, Inhabited

namespace StateId

instance : Ord StateId := ⟨compareOn number⟩
instance : Std.TransOrd StateId := inferInstanceAs (Std.TransCmp (compareOn number))
instance : Std.LawfulEqOrd StateId := lawfulEqCmp_compareOn number fun ⟨_⟩ ⟨_⟩ h => congrArg mk h

/-- The state between rounds, which no execution passes through. -/
def split : StateId := ⟨0⟩

/-- Whether this is the state between rounds. -/
def isSplit (state : StateId) : Bool := state.number == 0

/-- A state is written as its number. -/
def text (state : StateId) : String := toString state.number

/-- A state among other identifiers is written with a leading `S`. -/
def label (state : StateId) : String := "S" ++ toString state.number

end StateId

/-- An event that the program can take, named by its position among the program's events. -/
structure Event where
  /-- The event's position. -/
  number : Nat
deriving DecidableEq, Repr, Inhabited

namespace Event

instance : Ord Event := ⟨compareOn number⟩
instance : Std.TransOrd Event := inferInstanceAs (Std.TransCmp (compareOn number))
instance : Std.LawfulEqOrd Event := lawfulEqCmp_compareOn number fun ⟨_⟩ ⟨_⟩ h => congrArg mk h

/-- The events `0, 1, …, count - 1`. -/
def firstEvents (count : Nat) : List Event := (List.range count).map mk

/-- An event is written as its number. -/
def text (event : Event) : String := toString event.number

/-- An event among other identifiers is written with a leading `e`. -/
def label (event : Event) : String := "e" ++ toString event.number

end Event

/-- The object that owns an accessed field. -/
structure ObjectId where
  /-- The object's number. -/
  number : Nat
deriving DecidableEq, Repr, Inhabited

/-- An owner is written after an at sign. -/
def ObjectId.text (owner : ObjectId) : String := "@" ++ toString owner.number

/-- A decision point as the host names it. -/
structure PointId where
  /-- The host's number for the decision point. -/
  number : Nat
deriving DecidableEq, Repr, Inhabited

namespace PointId

instance : Ord PointId := ⟨compareOn number⟩
instance : Std.TransOrd PointId := inferInstanceAs (Std.TransCmp (compareOn number))
instance : Std.LawfulEqOrd PointId := lawfulEqCmp_compareOn number fun ⟨_⟩ ⟨_⟩ h => congrArg mk h

/-- A decision point is written `cp#` and its number. -/
def text (point : PointId) : String := "cp#" ++ toString point.number

end PointId

/-- One recorded run of the program, named by the order in which runs were started. The number has
no upper limit here. Where it is kept in 32 bits, what is proved about executions is meant for
searches that start at most 2 ^ 32 of them. -/
structure ExecutionId where
  /-- How many executions were started before this one. -/
  number : Nat
deriving DecidableEq, Repr, Inhabited

namespace ExecutionId

instance : Ord ExecutionId := ⟨compareOn number⟩
instance : Std.TransOrd ExecutionId := inferInstanceAs (Std.TransCmp (compareOn number))
instance : Std.LawfulEqOrd ExecutionId :=
  lawfulEqCmp_compareOn number fun ⟨_⟩ ⟨_⟩ h => congrArg mk h

/-- An execution is written `x` and its number. -/
def text (execution : ExecutionId) : String := "x" ++ toString execution.number

end ExecutionId

/-- A place in the recorded executions: an execution and a position in its trace. -/
structure TransitionRef where
  /-- The execution. -/
  execution : ExecutionId
  /-- The position in its trace, counted from 0. -/
  position : Nat
deriving DecidableEq, Repr, Inhabited

namespace TransitionRef

instance : Ord TransitionRef := ⟨compareLex (compareOn execution) (compareOn position)⟩
instance : Std.TransOrd TransitionRef :=
  inferInstanceAs (Std.TransCmp (compareLex (compareOn execution) (compareOn position)))
instance : Std.LawfulEqOrd TransitionRef :=
  lawfulEqCmp_compareLex execution position fun ⟨_, _⟩ ⟨_, _⟩ h k => by cases h; cases k; rfl

/-- A reference is written as its execution and its position with a colon between them. -/
def text (place : TransitionRef) : String := place.execution.text ++ ":" ++ toString place.position

end TransitionRef

/-- An event taken in a state. -/
structure Firing where
  /-- The state. -/
  state : StateId
  /-- The event taken in it. -/
  event : Event
deriving DecidableEq, Repr, Inhabited

namespace Firing

instance : Ord Firing := ⟨compareLex (compareOn state) (compareOn event)⟩
instance : Std.TransOrd Firing :=
  inferInstanceAs (Std.TransCmp (compareLex (compareOn state) (compareOn event)))
instance : Std.LawfulEqOrd Firing :=
  lawfulEqCmp_compareLex state event fun ⟨_, _⟩ ⟨_, _⟩ h k => by cases h; cases k; rfl

end Firing

end EventOrder
