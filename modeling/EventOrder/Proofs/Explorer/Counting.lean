import EventOrder.Proofs.Explorer.Conclusion
import EventOrder.Proofs.Explorer.Steps

/-!
# What is counted

The explorer counts transitions for the report at the end, whose place its configuration gives.
Recording a decision and learning from it change neither; what a decision counts is settled by how
it is concluded. It counts the event once when the event goes ahead, and nothing when the execution
ends or the decision fails.
-/

namespace EventOrder

/-- The counts after a decision for an event: only one that goes ahead is counted. -/
def Statistics.conclude (statistics : Statistics) (firing : Firing) :
    Except ExplorationError Flow → Statistics
  | .ok .proceed => statistics.record firing
  | _ => statistics

/-- A decision that does not go ahead is not counted. -/
theorem Statistics.conclude_of_ne_proceed {outcome : Except ExplorationError Flow}
    (h : outcome ≠ .ok .proceed) (statistics : Statistics) (firing : Firing) :
    statistics.conclude firing outcome = statistics := by
  unfold conclude
  split
  · exact absurd rfl h
  · rfl

namespace Explorer

variable {σ φ : Type}

/-- Adopting a restart counts nothing. -/
theorem adoptPending_same (explorer : Explorer σ φ) :
    explorer.adoptPending.config = explorer.config ∧
      explorer.adoptPending.statistics = explorer.statistics := by
  unfold adoptPending
  split <;> exact ⟨rfl, rfl⟩

/-- Moving on to the next backtrack point counts nothing. -/
theorem moveOn_same (explorer : Explorer σ φ) (view : HostView σ) (point : DecisionPoint) :
    (explorer.moveOn view point).explorer.config = explorer.config ∧
      (explorer.moveOn view point).explorer.statistics = explorer.statistics := by
  unfold moveOn
  split
  · exact ⟨rfl, rfl⟩
  · dsimp only
    split <;> exact ⟨rfl, rfl⟩

/-- A decision is counted when its conclusion lets it go ahead. -/
theorem conclude_counts (explorer : Explorer σ φ) (ends : Bool) (view : HostView σ)
    (point : DecisionPoint) (event : Event) :
    (explorer.conclude ends view point event).explorer.config = explorer.config ∧
      (explorer.conclude ends view point event).explorer.statistics =
        explorer.statistics.conclude ⟨view.state, event⟩
          (explorer.conclude ends view point event).outcome := by
  cases ends with
  | false => exact ⟨rfl, rfl⟩
  | true =>
    obtain ⟨hconfig, hstatistics⟩ := moveOn_same explorer view point
    have hstays := Statistics.conclude_of_ne_proceed
      (outcome_moveOn_ne_proceed explorer view point) explorer.statistics ⟨view.state, event⟩
    simp only [conclude, if_true]
    split
    · exact ⟨hconfig, hstatistics.trans hstays.symm⟩
    · exact ⟨hconfig, hstatistics.trans hstays.symm⟩

/-- A decision for the event that is due counts this event in the state of the host, when it goes
ahead, and nothing else. -/
theorem decide_counts (explorer : Explorer σ φ) (view : HostView σ) (point : DecisionPoint)
    (event : Event) :
    (explorer.decide view point event).explorer.config = explorer.config ∧
      (explorer.decide view point event).explorer.statistics =
        explorer.statistics.conclude ⟨view.state, event⟩
          (explorer.decide view point event).outcome := by
  have hsteps := explorer.decide_steps view point event
  generalize explorer.decide view point event = reply at hsteps ⊢
  cases hsteps with
  | failed => exact ⟨rfl, rfl⟩
  | concluded => exact conclude_counts ..

/-- A path that the host ends is not counted. -/
theorem pathMatched_same (explorer : Explorer σ φ) (view : HostView σ) (point : DecisionPoint) :
    (explorer.pathMatched view point).explorer.config = explorer.config ∧
      (explorer.pathMatched view point).explorer.statistics = explorer.statistics := by
  have hsteps := explorer.pathMatched_steps view point
  generalize explorer.pathMatched view point = reply at hsteps ⊢
  cases hsteps with
  | counted | failed => exact ⟨rfl, rfl⟩
  | stuck knowledge | moved knowledge =>
    exact moveOn_same { explorer with knowledge } view point

end Explorer

end EventOrder
