import EventOrder.Proofs.Explorer.Weighing
import EventOrder.Proofs.Race.Answers

/-!
# The walks of a decision

A decision completes the event before it and then weighs the state that was just entered. This file
lists the walks that are made on the way. Weighing the state answers the races of the events that
follow there with the event that led into it, if the state is replayed at all.
-/

namespace EventOrder.Explorer

variable {σ φ : Type}

/-- The walks made when the event before a decision is completed. -/
def completions (explorer : Explorer σ φ) : List Journey :=
  match explorer.previousPlace? with
  | none => []
  | some place => explorer.knowledge.completion place explorer.schedule.order

/-- The walks made when a state is replayed against a place as often as given. -/
def revisits (place : TransitionRef) (state : StateId) : Nat → Explorer σ φ → List Journey
  | 0, _ => []
  | times + 1, explorer =>
    explorer.knowledge.revisits state place explorer.schedule.order ++
      match explorer.learn
          (explorer.knowledge.stateRevisited state place explorer.schedule.order) with
      | (explorer, .ok _) => revisits place state times explorer
      | (_, .error _) => []

/-- How often a state just entered is replayed. -/
def replaysOf (explorer : Explorer σ φ) (state : StateId) : Nat :=
  (explorer.isMatched state).toNat + (explorer.visits.isRepeated state).toNat

/-- The walks made when states just entered are looked at. -/
def matchings (place : TransitionRef) : List StateId → Explorer σ φ → List Journey
  | [], _ => []
  | state :: states, explorer =>
    if !explorer.knowledge.summary.containsState state then matchings place states explorer
    else
      explorer.revisits place state (explorer.replaysOf state) ++
        match explorer.revisit place state (explorer.replaysOf state) with
        | (explorer, .ok ()) => matchings place states explorer
        | (_, .error _) => []

/-- The walks made when the states entered since the last decision are weighed. -/
def weighings (explorer : Explorer σ φ) : List Journey :=
  match explorer.previousPlace? with
  | none => []
  | some place => matchings place explorer.visits.recent.toList explorer

/-- The walks made once a decision is recorded. -/
def journeys (explorer : Explorer σ φ) : List Journey :=
  explorer.completions ++ explorer.completePrevious.1.weighings

variable {explorer : Explorer σ φ} {known : StateId → Prop}
  {pending : StateId → Event → Access → TransitionRef → Prop} {place : TransitionRef}
  {state : StateId} {transition : Transition}

/-- Completing the event before a decision leaves nothing pending but what was, and what its walk
strands. -/
theorem completePrevious_answers (explorer : Explorer σ φ) (h : explorer.knowledge.Grounded)
    (hplace : ∀ place, explorer.previousPlace? = some place →
      ∃ transition, explorer.knowledge.log.taken? place = some transition ∧
        known transition.state)
    (hanswers : explorer.knowledge.Answers known pending)
    (hcovered : Journey.Covered explorer.completions pending) :
    ∃ later created, explorer.completePrevious =
        ({ explorer with knowledge := later }, .ok created) ∧
      explorer.knowledge.Calls later ∧ later.Answers known pending := by
  refine completePrevious_induction explorer ⟨.refl _, hanswers⟩ fun place hprevious => ?_
  obtain ⟨transition, htaken, hknown⟩ := hplace place hprevious
  simp only [completions, hprevious] at hcovered
  exact h.eventCompleted_answers htaken hknown hanswers hcovered

/-- Replaying a state against a place answers the races of the state there. -/
private theorem revisit_answers (explorer : Explorer σ φ) (h : explorer.knowledge.Grounded)
    (hplace : explorer.knowledge.log.taken? place = some transition)
    (hknown : known transition.state) (times : Nat)
    (hanswers : explorer.knowledge.Answers known fun other event access another =>
      pending other event access another ∨ 0 < times ∧ other = state ∧ another = place)
    (hcovered : Journey.Covered (explorer.revisits place state times) pending) :
    ∃ later, revisit place state times explorer = ({ explorer with knowledge := later }, .ok ()) ∧
      explorer.knowledge.Calls later ∧ later.Answers known pending := by
  induction times generalizing explorer with
  | zero => exact ⟨explorer.knowledge, rfl, .refl _, hanswers.refine (by simp)⟩
  | succ times ih =>
    unfold revisits at hcovered
    obtain ⟨between, created, hrevisited, hcalls, hbetween⟩ :=
      h.stateRevisited_answers hplace hknown
        (hanswers.refine fun _ _ _ _ _ _ hpending => hpending.imp_right And.right)
        (hcovered.mono fun journey hjourney => List.mem_append_left _ hjourney)
    simp only [learn, hrevisited] at hcovered
    obtain ⟨later, hrevisit, hthen, hlater⟩ := ih { explorer with knowledge := between }
      (hcalls.grounded h) (by rw [hcalls.log_eq]; exact hplace)
      (hbetween.refine fun _ _ _ _ _ _ hpending => Or.inl hpending)
      (hcovered.mono fun journey hjourney => List.mem_append_right _ hjourney)
    exact ⟨later, by simp [revisit, learn, hrevisited, hrevisit], hcalls.trans hthen, hlater⟩

/-- Looking at the one state entered since the last decision answers the races there of events that
follow the place of that decision, if the state is replayed. -/
private theorem hasNothingNew_answers (explorer : Explorer σ φ) (h : explorer.knowledge.Grounded)
    (hrecent : explorer.visits.recent = {state}) (hprevious : explorer.previousPlace? = some place)
    (hplace : explorer.knowledge.log.taken? place = some transition)
    (hknown : known transition.state)
    (hanswers : explorer.knowledge.Answers known fun other event access another =>
      pending other event access another ∨ other = state ∧ another = place)
    (hreplayed : known state →
      0 < explorer.replaysOf state ∨ ∀ event access, pending state event access place)
    (hcovered : Journey.Covered explorer.weighings pending) :
    ∃ later ended, explorer.hasNothingNew = ({ explorer with knowledge := later }, .ok ended) ∧
      explorer.knowledge.Calls later ∧ later.Answers known pending := by
  have hstates : explorer.visits.recent.toList = [state] := by
    rw [hrecent]
    rfl
  simp only [weighings, hprevious, hstates, matchings] at hcovered
  simp only [hasNothingNew, hprevious, hstates, matchStates]
  cases hcontains : explorer.knowledge.summary.containsState state with
  | false =>
    refine ⟨explorer.knowledge, false, rfl, .refl _, hanswers.refine ?_⟩
    rintro other event access another earlier hrace (hpending | ⟨rfl, -⟩)
    · exact hpending
    · rw [Summary.containsState_of_mem hrace.summarised] at hcontains
      exact absurd hcontains (by simp)
  | true =>
    simp only [hcontains, Bool.not_true, Bool.false_eq_true, if_false] at hcovered
    have hraces : explorer.knowledge.Answers known fun other event access another =>
        pending other event access another ∨
          0 < explorer.replaysOf state ∧ other = state ∧ another = place := by
      refine hanswers.refine ?_
      rintro other event access another earlier - (hpending | ⟨rfl, rfl⟩)
      · exact Or.inl hpending
      · rcases hreplayed (hanswers.known_of_summary _ hcontains) with htimes | hopen
        · exact Or.inr ⟨htimes, rfl, rfl⟩
        · exact Or.inl (hopen event access)
    obtain ⟨later, hrevisit, hcalls, hlater⟩ := revisit_answers explorer h hplace hknown _ hraces
      (hcovered.mono fun journey hjourney => List.mem_append_left _ hjourney)
    unfold replaysOf isMatched at hrevisit
    exact ⟨later, _, by simp only [hrevisit]; rfl, hcalls, hlater⟩

/-- Once a recorded decision is weighed, the races at the place before it are answered in the state
just entered. A known state has to be replayed for that, and a state that is not known has no
races. -/
theorem weighed_answers (explorer : Explorer σ φ) (h : explorer.knowledge.Grounded)
    (hrecent : explorer.visits.recent = if explorer.counter = 0 then ∅ else {state})
    (hplace : ∀ place, explorer.previousPlace? = some place →
      ∃ transition, explorer.knowledge.log.taken? place = some transition ∧
        known transition.state)
    (hanswers : explorer.knowledge.Answers known fun other event access another =>
      pending other event access another ∨
        other = state ∧ explorer.previousPlace? = some another)
    (hreplayed : known state → ∀ place, explorer.previousPlace? = some place →
      0 < explorer.replaysOf state ∨ ∀ event access, pending state event access place)
    (hcovered : Journey.Covered explorer.journeys pending) :
    ∃ later, explorer.weighed = { explorer with knowledge := later } ∧
      explorer.knowledge.Calls later ∧ later.Answers known pending := by
  obtain ⟨between, created, hcompleted, hcalls, hbetween⟩ :=
    completePrevious_answers explorer h hplace hanswers fun journey hjourney lost hlost =>
      Or.inl (hcovered journey (List.mem_append_left _ hjourney) lost hlost)
  unfold weighed
  simp only [hcompleted]
  by_cases hcounter : explorer.counter = 0
  · have hprevious : explorer.previousPlace? = none := by simp [previousPlace?, hcounter]
    refine ⟨between, ?_, hcalls, hbetween.refine ?_⟩
    · simp only [hasNothingNew, show ({ explorer with knowledge := between } :
        Explorer σ φ).previousPlace? = none from hprevious]
    · rintro other event access another earlier - (hpending | ⟨-, hanother⟩)
      · exact hpending
      · exact absurd hanother (by simp [hprevious])
  · have hprevious : explorer.previousPlace? =
        some ⟨explorer.current, explorer.counter - 1⟩ := by
      simp [previousPlace?, hcounter]
    obtain ⟨transition, htaken, hknown⟩ := hplace _ hprevious
    rw [if_neg hcounter] at hrecent
    obtain ⟨later, ended, hlater, hthen, hlast⟩ := hasNothingNew_answers
      { explorer with knowledge := between } (hcalls.grounded h) hrecent hprevious
      (by rw [hcalls.log_eq]; exact htaken) hknown
      (hbetween.refine fun other event access another earlier _ hpending =>
        hpending.imp_right fun hhere =>
          ⟨hhere.1, Option.some.inj (hhere.2.symm.trans hprevious)⟩)
      (fun hstate => hreplayed hstate _ hprevious)
      (hcovered.mono fun journey hjourney => List.mem_append_right _ (by
        rw [hcompleted]
        exact hjourney))
    exact ⟨later, by rw [hlater], hcalls.trans hthen, hlast⟩

end EventOrder.Explorer
