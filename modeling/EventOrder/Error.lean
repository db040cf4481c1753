import EventOrder.Identifier

/-!
# Exploration errors

What can stop an exploration. Every cause has one wording.
-/

namespace EventOrder

/-- The cause that stopped an exploration. -/
inductive ExplorationError where
  /-- The time budget, in seconds, was used up. -/
  | timedOut (limit : Nat)
  /-- The host is to return to a state of which no snapshot was taken. -/
  | missingSnapshot (state : StateId)
  /-- A place holds no transition. -/
  | unknownTransition (place : TransitionRef)
  /-- The report cannot be written to the file. -/
  | unwritableReport (path : String)
deriving DecidableEq, Repr, Inhabited

/-- The wording of an error. -/
def ExplorationError.message : ExplorationError → String
  | .timedOut limit => "exploration timed out after " ++ toString limit ++ " seconds"
  | .missingSnapshot state => "no snapshot recorded for state " ++ state.text
  | .unknownTransition place =>
    "transition " ++ place.text ++ " is not owned by any recorded execution"
  | .unwritableReport path => "cannot write report to '" ++ path ++ "'"

/-- A step that may fail: the answer or the error, with the state left behind in either case. -/
abbrev Attempt (σ α : Type) := σ × Except ExplorationError α

end EventOrder
