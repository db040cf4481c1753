import EventOrder.Number.Power
import EventOrder.Search.Basic

/-!
# Turns

A search proceeds in turns. In a turn it executes one event, or it moves the machine to another
state to go on from, or it ends. Between two turns no event is under way.
-/

namespace EventOrder

/-- What comes of a turn; `κ` is what the next turn starts from. -/
inductive Turn (κ : Type) where
  /-- An event was executed. -/
  | fired (firing : Firing) (search : Search) (next : κ)
  /-- The machine was moved to where the search goes on. -/
  | moved (search : Search) (next : κ)
  /-- The search has ended. -/
  | ended (search : Search) (outcome : Except ExplorationError Outcome)

namespace Search

variable {κ : Type}

/-- Takes turns up to the end of the search, but no more than given. -/
def takeTurns (turn : Search → κ → Turn κ) : Nat → Search → κ → Attempt Search Outcome
  | 0, search, _ => (search, .ok .limitReached)
  | turns + 1, search, next =>
    match turn search next with
    | .fired _ search next => takeTurns turn turns search next
    | .moved search next => takeTurns turn turns search next
    | .ended search outcome => (search, outcome)

/-- A bound on the states of the program: there are no more lists of 64-bit values. -/
def stateBound (search : Search) : Nat := (2 ^ 64) ^ search.code.declarations.length

end Search

end EventOrder
