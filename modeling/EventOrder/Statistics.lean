import EventOrder.Identifier

/-!
# Statistics

Running counts of a search and the figures reported at its end.
-/

namespace EventOrder

/-- Counts kept while a search runs. -/
structure Statistics where
  /-- How many transitions were taken. -/
  transitions : Nat
  /-- The distinct events taken in each state, where they are tracked. -/
  distinct : Std.ExtTreeSet Firing
deriving DecidableEq, Inhabited

namespace Statistics

/-- The counts before any transition. -/
def empty : Statistics := ⟨0, ∅⟩

/-- Counts a transition without tracking where it was taken. -/
def count (statistics : Statistics) : Statistics :=
  { statistics with transitions := statistics.transitions + 1 }

/-- Counts a transition and tracks the event and its state. -/
def record (statistics : Statistics) (firing : Firing) : Statistics :=
  ⟨statistics.transitions + 1, statistics.distinct.insert firing⟩

/-- How many different events were taken, an event counting once per state. -/
def uniqueTransitions (statistics : Statistics) : Nat := statistics.distinct.size

end Statistics

/-- Where and in which order an execution started. -/
structure ExecutionStart where
  /-- The execution. -/
  execution : ExecutionId
  /-- The state it started in. -/
  state : StateId
  /-- The event order it follows. -/
  schedule : List Event
deriving DecidableEq, Repr, Inhabited

/-- The figures at the end of a search. -/
structure SearchSummary where
  /-- Whether reordering was reduced. -/
  stateReduction : Bool
  /-- How many events the program offers. -/
  events : Nat
  /-- How many transitions were taken. -/
  transitions : Nat
  /-- How many of them were different. -/
  uniqueTransitions : Nat
  /-- How many executions were started. -/
  executions : Nat
  /-- How many backtrack points were admitted. -/
  backtrackPoints : Nat
deriving DecidableEq, Repr, Inhabited

/-- The report has one line per figure. -/
def SearchSummary.lines (summary : SearchSummary) : List String :=
  ["State reduction mode         : " ++ (if summary.stateReduction then "true" else "false"),
    "Number of events             : " ++ toString summary.events,
    "Number of transitions        : " ++ toString summary.transitions,
    "Number of unique transitions : " ++ toString summary.uniqueTransitions,
    "Executions started           : " ++ toString summary.executions,
    "Backtrack points created     : " ++ toString summary.backtrackPoints]

/-- The report, without a line end after its last line. -/
def SearchSummary.text (summary : SearchSummary) : String := "\n".intercalate summary.lines

end EventOrder
