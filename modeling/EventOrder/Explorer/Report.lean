import EventOrder.Explorer.Basic
import EventOrder.Files

/-!
# The end of a search

At its end a search is summed up, and the figures are appended to the report file if there is one.
-/

namespace EventOrder.Explorer

variable {σ φ : Type}

/-- Sums the search up. The figures are only answered when the report, if one was asked for, could
be written. -/
def finish {m : Type → Type} [Monad m] [FileStore m] (explorer : Explorer σ φ) :
    m (Except ExplorationError SearchSummary) := do
  let summary := explorer.summary
  match explorer.config.reportPath with
  | none => return .ok summary
  | some path => return (← summary.appendTo path).map fun _ => summary

end EventOrder.Explorer
