import EventOrder.Proofs.Race.Propagation

/-!
# The first completion of an event

When an event of which nothing is summarised yet completes, its whole footprint travels to every
place that leads to it, unless some conflict was met before. So if it conflicts with any of these
places, the walk calls for a reordering.
-/

namespace EventOrder

/-- The places from which recorded predecessors lead to a place. -/
inductive Knowledge.LeadsTo (knowledge : Knowledge) (target : TransitionRef) : TransitionRef → Prop
  | refl : LeadsTo knowledge target target
  | step {place between : TransitionRef} {transition : Transition}
      (hleads : LeadsTo knowledge target between)
      (htaken : knowledge.log.taken? between = some transition)
      (hplace : place ∈ knowledge.predecessors.of transition.state) :
      LeadsTo knowledge target place

namespace Walk

variable {walk : Walk} {frame root : Frame} {reference : List Event} {knowledge : Knowledge}

/-- The walk was at a place: it absorbed the root's accesses there and met no conflict. -/
def Passed (walk : Walk) (root : Frame) (place : TransitionRef) : Prop :=
  ∀ transition, walk.knowledge.log.taken? place = some transition →
    walk.knowledge.summary.get? transition.state root.event = some root.footprint ∧
      (transition.event ≠ root.event → ∀ recorded,
        walk.knowledge.log.footprint? place = some recorded →
          root.footprint.takeConflict? recorded = none)

/-- A walk with these frames to visit that has met no conflict, when nothing was summarised of the
root's event before. -/
structure Spreads (walk : Walk) (frames : List Frame) (root : Frame) : Prop where
  /-- No reordering was called for. -/
  silent : walk.knowledge.backlog.Ledger [] []
  /-- All that travels are the root's accesses. -/
  carried : ∀ frame ∈ frames, frame.event = root.event ∧ frame.footprint = root.footprint
  /-- A state knows all of them or none. -/
  entry : ∀ state, walk.knowledge.summary.get? state root.event = none ∨
    walk.knowledge.summary.get? state root.event = some root.footprint
  /-- The states of expanded places know them. -/
  known_of_visited : ∀ place ∈ walk.visited, ∀ transition,
    walk.knowledge.log.taken? place = some transition →
      walk.knowledge.summary.get? transition.state root.event = some root.footprint
  /-- From every state that knows them they travel on to all predecessors. -/
  spread : ∀ state, walk.knowledge.summary.get? state root.event = some root.footprint →
    ∀ place ∈ walk.knowledge.predecessors.of state,
      (∃ frame ∈ frames, frame.place = place ∧ frame.check = true) ∨ walk.Passed root place
  /-- They set out from the root. -/
  start : (∃ frame ∈ frames, frame.place = root.place) ∨
    ∀ transition, walk.knowledge.log.taken? root.place = some transition →
      walk.knowledge.summary.get? transition.state root.event = some root.footprint

/-- The root's accesses are known at a state once they were absorbed there, and elsewhere as
before. -/
private theorem Spreads.get?_absorb {frames : List Frame} (h : walk.Spreads frames root)
    (hnonempty : root.footprint.isEmpty = false) (hevent : frame.event = root.event)
    (hfootprint : frame.footprint = root.footprint) (state other : StateId) :
    (walk.absorb state frame).knowledge.summary.get? other root.event =
      if state = other then some root.footprint
      else walk.knowledge.summary.get? other root.event := by
  change (walk.knowledge.summary.absorb state frame.event frame.footprint).2.get? other root.event =
    _
  rw [Summary.get?_absorb, hevent, hfootprint]
  by_cases hstate : state = other
  · have hmerged : (walk.knowledge.summary.footprintAt state root.event).merge root.footprint =
        root.footprint := by
      rcases h.entry state with hnone | hsome
      · simp [Summary.footprintAt, hnone]
      · simp [Summary.footprintAt, hsome]
    rw [if_pos ⟨hnonempty, hstate, rfl⟩, if_pos hstate, hmerged]
  · rw [if_neg fun hsame => hstate hsame.2.1, if_neg hstate]

/-- A state that did not know the root's accesses sends them on to all its predecessors. -/
private theorem Spreads.stack_absorb_of_new {frames : List Frame} (h : walk.Spreads frames root)
    (hnonempty : root.footprint.isEmpty = false) (hevent : frame.event = root.event)
    (hfootprint : frame.footprint = root.footprint) {transition : Transition}
    (htaken : walk.knowledge.log.taken? frame.place = some transition)
    (hnew : walk.knowledge.summary.get? transition.state root.event = none) :
    (walk.absorb transition.state frame).stack =
      (walk.knowledge.predecessors.of transition.state).map
        (fun place => ⟨place, root.event, root.footprint, true⟩) ++ walk.stack := by
  have hvisited : walk.visited.contains frame.place = false := by
    rw [← Bool.not_eq_true, Std.ExtTreeSet.contains_iff_mem]
    intro hvisited
    rw [h.known_of_visited _ hvisited _ htaken] at hnew
    exact absurd hnew (by simp)
  have hnews : (walk.knowledge.summary.absorb transition.state root.event root.footprint).1 =
      root.footprint := by
    simp [Summary.absorb_fst, Summary.footprintAt, hnew]
  simp only [Walk.absorb, hevent, hfootprint, hnews, hvisited, hnonempty, Bool.or_self,
    Bool.false_eq_true, if_false]

/-- A state that knew them already sends nothing on. -/
private theorem stack_absorb_of_known (hevent : frame.event = root.event)
    (hfootprint : frame.footprint = root.footprint) {state : StateId}
    (hknown : walk.knowledge.summary.get? state root.event = some root.footprint) :
    (walk.absorb state frame).stack = walk.stack := by
  have hnews : (walk.knowledge.summary.absorb state root.event root.footprint).1.isEmpty =
      true := by
    rw [Footprint.isEmpty_iff]
    intro access haccess
    rw [Summary.mem_absorb_fst, Summary.footprintAt, hknown] at haccess
    exact haccess.2 haccess.1
  simp only [Walk.absorb, hevent, hfootprint, hnews, Bool.or_true, if_true, List.nil_append]

/-- Once they were absorbed at a state the root's accesses are known there, and still wherever they
were known before. -/
private theorem Spreads.known_absorb {frames : List Frame} (h : walk.Spreads frames root)
    (hnonempty : root.footprint.isEmpty = false) (hevent : frame.event = root.event)
    (hfootprint : frame.footprint = root.footprint) {state other : StateId}
    (hknown : state = other ∨
      walk.knowledge.summary.get? other root.event = some root.footprint) :
    (walk.absorb state frame).knowledge.summary.get? other root.event = some root.footprint := by
  rw [h.get?_absorb hnonempty hevent hfootprint]
  rcases hknown with rfl | hknown
  · exact if_pos rfl
  · rw [hknown, ite_self]

/-- Only the root's accesses are sent on. -/
private theorem Spreads.carried_absorb (h : walk.Spreads (frame :: walk.stack) root)
    (hnonempty : root.footprint.isEmpty = false) {transition : Transition}
    (htaken : walk.knowledge.log.taken? frame.place = some transition) {other : Frame}
    (hother : other ∈ (walk.absorb transition.state frame).stack) :
    other.event = root.event ∧ other.footprint = root.footprint := by
  obtain ⟨hevent, hfootprint⟩ := h.carried frame List.mem_cons_self
  rcases h.entry transition.state with hnew | hknown
  · rw [h.stack_absorb_of_new hnonempty hevent hfootprint htaken hnew] at hother
    rcases List.mem_append.mp hother with honward | hold
    · obtain ⟨place, -, rfl⟩ := List.mem_map.mp honward
      exact ⟨rfl, rfl⟩
    · exact h.carried other (List.mem_cons_of_mem _ hold)
  · rw [stack_absorb_of_known hevent hfootprint hknown] at hother
    exact h.carried other (List.mem_cons_of_mem _ hother)

/-- A checked frame without a conflict leaves its place passed; any other one that was to be visited
still is. -/
private theorem Spreads.passed_absorb (h : walk.Spreads (frame :: walk.stack) root)
    (hnonempty : root.footprint.isEmpty = false) {transition : Transition}
    (htaken : walk.knowledge.log.taken? frame.place = some transition)
    (hconflict : walk.conflictRest? frame transition = none) {place : TransitionRef}
    (hplace : (∃ other ∈ frame :: walk.stack, other.place = place ∧ other.check = true) ∨
      walk.Passed root place) :
    (∃ other ∈ (walk.absorb transition.state frame).stack,
        other.place = place ∧ other.check = true) ∨
      (walk.absorb transition.state frame).Passed root place := by
  obtain ⟨hevent, hfootprint⟩ := h.carried frame List.mem_cons_self
  rcases hplace with ⟨other, hother, rfl, hcheck⟩ | hpassed
  · rcases List.mem_cons.mp hother with rfl | hother
    · refine Or.inr fun taken hplace => ?_
      obtain rfl : transition = taken := Option.some.inj (htaken.symm.trans hplace)
      refine ⟨h.known_absorb hnonempty hevent hfootprint (Or.inl rfl),
        fun hne recorded hrecorded => ?_⟩
      have hnone : (walk.knowledge.log.footprint? other.place).bind
          other.footprint.takeConflict? = none := by
        simpa [conflictRest?, hcheck, hevent, hne] using hconflict
      change walk.knowledge.log.footprint? other.place = some recorded at hrecorded
      rw [hrecorded, hfootprint] at hnone
      exact hnone
    · exact Or.inl ⟨other, List.mem_append_right _ hother, rfl, hcheck⟩
  · refine Or.inr fun taken hplace => ?_
    obtain ⟨hknown, hclear⟩ := hpassed taken hplace
    exact ⟨h.known_absorb hnonempty hevent hfootprint (Or.inr hknown), hclear⟩

/-- A visit without a conflict lets the accesses spread. -/
private theorem Spreads.absorb (h : walk.Spreads (frame :: walk.stack) root)
    (hnonempty : root.footprint.isEmpty = false) {transition : Transition}
    (htaken : walk.knowledge.log.taken? frame.place = some transition)
    (hconflict : walk.conflictRest? frame transition = none) :
    (walk.absorb transition.state frame).Spreads (walk.absorb transition.state frame).stack
      root := by
  obtain ⟨hevent, hfootprint⟩ := h.carried frame List.mem_cons_self
  have hsummary := h.get?_absorb hnonempty hevent hfootprint transition.state
  -- the place of the frame is expanded by this visit
  have hvisited (taken : Transition)
      (hplace : walk.knowledge.log.taken? frame.place = some taken) :
      (walk.absorb transition.state frame).knowledge.summary.get? taken.state root.event =
        some root.footprint := by
    obtain rfl : transition = taken := Option.some.inj (htaken.symm.trans hplace)
    exact h.known_absorb hnonempty hevent hfootprint (Or.inl rfl)
  refine ⟨h.silent, fun other hother => h.carried_absorb hnonempty htaken hother, fun state => ?_,
    fun place hplace taken htakenPlace => ?_, fun state hknown place hplace => ?_, ?_⟩
  · rw [hsummary]
    split
    · exact Or.inr rfl
    · exact h.entry state
  · rcases Std.ExtTreeSet.mem_insert.mp hplace with hsame | hold
    · rw [Std.compare_eq_iff_eq] at hsame
      exact hvisited taken (hsame ▸ htakenPlace)
    · exact h.known_absorb hnonempty hevent hfootprint
        (Or.inr (h.known_of_visited place hold taken htakenPlace))
  · rcases h.entry state with hbefore | hbefore
    · have hstate : transition.state = state := by
        by_contra hne
        rw [hsummary, if_neg hne, hbefore] at hknown
        exact absurd hknown (by simp)
      subst hstate
      rw [h.stack_absorb_of_new hnonempty hevent hfootprint htaken hbefore]
      exact Or.inl ⟨_, List.mem_append_left _ (List.mem_map_of_mem hplace), rfl, rfl⟩
    · exact h.passed_absorb hnonempty htaken hconflict (h.spread state hbefore place hplace)
  · rcases h.start with ⟨other, hother, hat⟩ | hknown
    · rcases List.mem_cons.mp hother with rfl | hother
      · exact Or.inr fun taken hplace => hvisited taken (hat ▸ hplace)
      · exact Or.inl ⟨other, List.mem_append_right _ hother, hat⟩
    · exact Or.inr fun taken hplace =>
        h.known_absorb hnonempty hevent hfootprint (Or.inr (hknown taken hplace))

/-- A visit with a conflict calls for a reordering. -/
private theorem Spreads.created_of_conflict {frames : List Frame} (h : walk.Spreads frames root)
    {transition : Transition} {rest : Footprint} {next : Walk}
    (hvisit : walk.visit reference frame = .ok next)
    (hplace : walk.knowledge.log.transition? frame.place = some transition)
    (hconflict : walk.conflictRest? frame transition = some rest) :
    0 < next.knowledge.backlog.created := by
  rw [visit_of_conflictRest?_eq_some hplace hconflict, Except.ok.injEq] at hvisit
  have hfirst : (BacktrackPoint.reorder transition.state frame.event reference frame.place).first? =
      some frame.event := rfl
  have hnew : walk.knowledge.backlog.isConstructed transition.state frame.event = false := by
    rw [← Bool.not_eq_true, Backlog.isConstructed, Std.ExtTreeSet.contains_iff_mem,
      h.silent.constructed]
    simp
  have hledger := (h.silent.add_new hfirst hnew).2
  rw [← hvisit]
  change 0 < (walk.knowledge.backlog.add _).2.created
  rw [hledger.created]
  exact Nat.succ_pos _

/-- A visit takes no admitted point back. -/
private theorem created_le_of_visit {next : Walk}
    (hvisit : walk.visit reference frame = .ok next) :
    walk.knowledge.backlog.created ≤ next.knowledge.backlog.created := by
  obtain ⟨transition, -, ⟨-, rfl⟩ | ⟨rest, -, rfl⟩⟩ := visit_cases hvisit
  · exact Nat.le_refl _
  · exact Backlog.created_le_add _ _

end Walk

namespace Knowledge

variable {knowledge : Knowledge} {reference : List Event}

/-- What is learnt takes no admitted point back. -/
theorem Learns.created_le {later : Knowledge} (h : knowledge.Learns reference later) :
    knowledge.backlog.created ≤ later.backlog.created := by
  induction h with
  | refl => exact Nat.le_refl _
  | absorb _ _ _ _ _ _ ih => exact ih
  | call _ _ _ _ _ _ _ _ _ ih => exact Nat.le_trans ih (Backlog.created_le_add _ _)

/-- Whatever a walk from a root without a conflict has spread to, when no frame is left, is passed
or the root's place. -/
private theorem passed_of_leadsTo {walk : Walk} {root : Frame} (h : walk.Spreads [] root)
    (hlog : walk.knowledge.log = knowledge.log)
    (hpredecessors : walk.knowledge.predecessors = knowledge.predecessors)
    {place : TransitionRef} (hleads : knowledge.LeadsTo root.place place) :
    place = root.place ∨ walk.Passed root place := by
  induction hleads with
  | refl => exact Or.inl rfl
  | @step place between transition _ htaken hplace ih =>
    rw [← hlog] at htaken
    rw [← hpredecessors] at hplace
    have hknown : walk.knowledge.summary.get? transition.state root.event =
        some root.footprint := by
      rcases ih with rfl | hpassed
      · rcases h.start with ⟨frame, hframe, -⟩ | hknown
        · exact absurd hframe List.not_mem_nil
        · exact hknown transition htaken
      · exact (hpassed transition htaken).1
    rcases h.spread transition.state hknown place hplace with ⟨frame, hframe, -⟩ | hpassed
    · exact absurd hframe List.not_mem_nil
    · exact Or.inr hpassed

/-- A visit calls for a reordering or lets the accesses spread. -/
private theorem visit_spreads {walk next : Walk} {frame root : Frame} {stack : List Frame}
    (hnonempty : root.footprint.isEmpty = false) (hstack : walk.stack = frame :: stack)
    (hlearning : walk.Learning reference knowledge)
    (hvisit : { walk with stack }.visit reference frame = .ok next)
    (hmotive : 0 < walk.knowledge.backlog.created ∨ walk.Spreads walk.stack root) :
    0 < next.knowledge.backlog.created ∨ next.Spreads next.stack root := by
  obtain ⟨transition, htaken⟩ := hlearning.taken_of_frame frame (by simp [hstack])
  rcases hmotive with hcreated | hspreads
  · have hkept := Walk.created_le_of_visit hvisit
    exact Or.inl (Nat.lt_of_lt_of_le hcreated hkept)
  · have hpopped : ({ walk with stack } : Walk).Spreads (frame :: stack) root := by
      rw [hstack] at hspreads
      exact { hspreads with }
    cases hconflict : ({ walk with stack } : Walk).conflictRest? frame transition with
    | none =>
      have hnext := Except.ok.inj (hvisit.symm.trans (Walk.visit_of_conflictRest?_eq_none
        (ExecutionLog.transition?_of_taken? htaken) hconflict))
      rw [hnext]
      exact Or.inr (Walk.Spreads.absorb hpopped hnonempty htaken hconflict)
    | some rest =>
      exact Or.inl (hpopped.created_of_conflict hvisit
        (ExecutionLog.transition?_of_taken? htaken) hconflict)

/-- An event of which nothing is summarised calls for a reordering when it completes, if it
conflicts with a place that leads to the place where it was taken. -/
theorem Coherent.eventCompleted_calls (h : knowledge.Coherent reference)
    (hsilent : knowledge.backlog.Ledger [] []) {place earlier : TransitionRef}
    {transition other : Transition} {footprint recorded : Footprint}
    (htaken : knowledge.log.taken? place = some transition)
    (hfootprint : knowledge.log.footprint? place = some footprint)
    (hunknown : ∀ state, knowledge.summary.get? state transition.event = none)
    (hleads : knowledge.LeadsTo place earlier)
    (hearlier : knowledge.log.taken? earlier = some other)
    (hrecorded : knowledge.log.footprint? earlier = some recorded)
    (hne : other.event ≠ transition.event)
    (hconflict : footprint.takeConflict? recorded ≠ none) :
    ∃ later created, knowledge.eventCompleted place reference = (later, .ok created) ∧
      0 < later.backlog.created := by
  let root : Frame := ⟨place, transition.event, footprint, false⟩
  have hnonempty : root.footprint.isEmpty = false :=
    Footprint.isEmpty_eq_false_of_takeConflict?_ne_none hconflict
  have hstart : (Walk.start knowledge root).Spreads (Walk.start knowledge root).stack root :=
    { silent := hsilent
      carried := fun frame hframe => by
        rw [List.mem_singleton.mp hframe]
        exact ⟨rfl, rfl⟩
      entry := fun state => Or.inl (hunknown state)
      known_of_visited := fun visited hvisited => absurd hvisited Std.ExtTreeSet.not_mem_empty
      spread := fun state hknown => by
        change knowledge.summary.get? state transition.event = _ at hknown
        rw [hunknown] at hknown
        exact absurd hknown (by simp)
      start := Or.inl ⟨root, List.mem_singleton_self root, rfl⟩ }
  obtain ⟨last, hpropagate, hlast, hempty, hmotive⟩ := h.propagate_induction
    (motive := fun walk => 0 < walk.knowledge.backlog.created ∨ walk.Spreads walk.stack root)
    (show knowledge.log.taken? root.place = some transition from htaken)
    (h.event_of_taken _ _ htaken) (.recorded htaken hfootprint) (Or.inr hstart)
    fun walk frame stack next hstack hlearning hvisit hmotive =>
      visit_spreads hnonempty hstack hlearning hvisit hmotive
  refine ⟨last.knowledge, last.created, ?_, ?_⟩
  · simp only [eventCompleted, hfootprint, transitionAt, ExecutionLog.transition?_of_taken? htaken]
    exact hpropagate
  · rcases hmotive with hcreated | hspreads
    · exact hcreated
    · rw [hempty] at hspreads
      rcases passed_of_leadsTo hspreads hlast.learns.log_eq hlast.learns.predecessors_eq hleads
        with hsame | hpassed
      · rw [show earlier = place from hsame, htaken, Option.some.injEq] at hearlier
        exact absurd (congrArg Transition.event hearlier.symm) hne
      · rw [← hlast.learns.log_eq] at hearlier hrecorded
        exact absurd ((hpassed other hearlier).2 hne recorded hrecorded) hconflict

end Knowledge

end EventOrder
