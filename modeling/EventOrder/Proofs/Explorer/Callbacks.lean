import EventOrder.Explorer.Report
import EventOrder.Explorer.Decision
import EventOrder.Explorer.Observation

/-!
# Calls of a host

An explorer learns of its host only through the calls that the host makes. This file lists the
calls, says what the explorer answers to each, and follows an explorer through any sequence of them.
A host that was told that the search is finished makes no decision until a new round starts; apart
from that it may make its calls in any order.
-/

namespace EventOrder

/-- A call that a host makes, with all that the explorer reads of the host then. -/
inductive Callback (σ : Type) where
  /-- The search was started. -/
  | searchStarted
  /-- A decision point was opened. -/
  | pointRegistered (point : DecisionPoint)
  /-- A decision point was advanced. -/
  | choiceAdvanced (view : HostView σ) (point : DecisionPoint)
  /-- The host found its state matched. -/
  | pathMatched (view : HostView σ) (point : DecisionPoint)
  /-- An instruction was run. -/
  | accessObserved (active : ActivePoint) (access : Option Access)
  /-- A state was entered. -/
  | stateEntered (state : StateId)
  /-- The host came back to a state. -/
  | stateLeft (state : StateId)
  /-- A snapshot was restored. -/
  | stateRestored
  /-- The split point was passed. -/
  | splitAdvanced
  /-- The search came to its end, with these files at hand for a report. -/
  | searchFinished (directory : Directory)
deriving DecidableEq, Inhabited

/-- Whether the host asks how to go on. -/
def Callback.asksToGoOn {σ : Type} : Callback σ → Bool
  | choiceAdvanced _ _ | pathMatched _ _ => true
  | _ => false

/-- Whether the host is told that no order is left to be tried. -/
def Flow.isFinished : Flow → Bool
  | finished => true
  | _ => false

namespace Explorer

variable {σ φ : Type} [AccessFilter φ]

/-- The explorer after a call, and what the host gets back: how to go on when it asked for that,
nothing otherwise, or the error that stopped the explorer. -/
def hear (explorer : Explorer σ φ) : Callback σ → Attempt (Explorer σ φ) (Option Flow)
  | .searchStarted | .stateRestored => (explorer, .ok none)
  | .pointRegistered point => ((explorer.pointRegistered point).1, .ok none)
  | .choiceAdvanced view point =>
    let reply := explorer.choiceAdvanced view point
    (reply.explorer, reply.outcome.map some)
  | .pathMatched view point =>
    let reply := explorer.pathMatched view point
    (reply.explorer, reply.outcome.map some)
  | .accessObserved active access => (explorer.accessObserved active access, .ok none)
  | .stateEntered state | .stateLeft state => (explorer.stateEntered state, .ok none)
  | .splitAdvanced => (explorer.splitAdvanced, .ok none)
  | .searchFinished directory =>
    let summary := ((explorer.finish : StateM Directory _) directory).1
    (explorer, summary.map fun _ => none)

/-- Whether a call starts a new round: passing the split point does, once it is armed. -/
def startsRound (explorer : Explorer σ φ) : Callback σ → Bool
  | .splitAdvanced => explorer.reducing && explorer.splitPassed
  | _ => false

end Explorer

/-- An explorer in the hands of a host. -/
structure Session (σ φ : Type) where
  /-- The explorer. -/
  explorer : Explorer σ φ
  /-- Whether the host was told in this round that no order is left to be tried. -/
  finished : Bool
deriving DecidableEq, Inhabited

namespace Session

variable {σ φ : Type} [AccessFilter φ]

/-- A session before any call. -/
def start (config : ExploreConfig) (filter : φ) : Session σ φ := ⟨.start config filter, false⟩

/-- The session after a call. -/
def hear (session : Session σ φ) (callback : Callback σ) : Session σ φ where
  explorer := (session.explorer.hear callback).1
  finished :=
    if session.explorer.startsRound callback then false
    else session.finished ||
      match (session.explorer.hear callback).2 with
      | .ok (some flow) => flow.isFinished
      | _ => false

/-- The session after all of the calls. -/
def after (session : Session σ φ) (callbacks : List (Callback σ)) : Session σ φ :=
  callbacks.foldl hear session

/-- What the host gets back from each of its calls. -/
def answers (session : Session σ φ) :
    List (Callback σ) → List (Except ExplorationError (Option Flow))
  | [] => []
  | callback :: callbacks =>
    (session.explorer.hear callback).2 :: (session.hear callback).answers callbacks

/-- Whether a host that was told that the search is finished asks how to go on only once a new
round has started. -/
def isOrderly (session : Session σ φ) : List (Callback σ) → Bool
  | [] => true
  | callback :: callbacks =>
    !(session.finished && callback.asksToGoOn) && (session.hear callback).isOrderly callbacks

variable {motive : Session σ φ → Prop} {session : Session σ φ} {callbacks : List (Callback σ)}

/-- What each call of an orderly host keeps, and what it implies of the answer, holds throughout. -/
theorem answers_induction {good : Except ExplorationError (Option Flow) → Prop}
    (hstep : ∀ session callback, motive session →
      (session.finished && callback.asksToGoOn) = false →
        good (session.explorer.hear callback).2 ∧ motive (session.hear callback))
    (h : motive session) (horderly : session.isOrderly callbacks = true) :
    ∀ answer ∈ session.answers callbacks, good answer := by
  induction callbacks generalizing session with
  | nil => simp [answers]
  | cons callback callbacks ih =>
    simp only [isOrderly, Bool.and_eq_true, Bool.not_eq_true'] at horderly
    obtain ⟨hgood, hnext⟩ := hstep session callback h horderly.1
    intro answer hanswer
    rcases List.mem_cons.mp hanswer with rfl | hlater
    · exact hgood
    · exact ih hnext horderly.2 answer hlater

end Session

end EventOrder
