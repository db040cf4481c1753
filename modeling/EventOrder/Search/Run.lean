import EventOrder.Explorer.Report
import EventOrder.Search.Exhaustive
import EventOrder.Search.Reduced

/-!
# Running a search

A search is run to its end and then summed up. Whether it is reduced is settled when its first
decision point is registered.
-/

namespace EventOrder

/-- How a search ended, and its figures. -/
structure SearchResult where
  /-- How it ended. -/
  outcome : Outcome
  /-- The figures. -/
  summary : SearchSummary
deriving DecidableEq, Repr, Inhabited

namespace Search

/-- Runs a search to its end. -/
def explore (search : Search) : Attempt Search Outcome :=
  let (search, point) := search.registerPoint
  if search.explorer.reducing then search.reduced point else search.exhaustive point

/-- Runs a search to its end and sums it up. -/
def run {m : Type → Type} [Monad m] [FileStore m] (search : Search) :
    m (Attempt Search SearchResult) := do
  match search.explore with
  | (search, .error error) => return (search, .error error)
  | (search, .ok outcome) =>
    return (search, (← search.explorer.finish).map fun summary => ⟨outcome, summary⟩)

end Search

end EventOrder
