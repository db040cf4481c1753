import EventOrder.Proofs.Race.Learning
import EventOrder.Proofs.Trace.Leading

/-!
# Walks come to their end

A walk expands each place at most once, and it stands only at its root and at recorded predecessors.
So the frames that it is given are enough: it stops because no frame is left. Completing an event
and meeting a state again never fail on coherent knowledge.
-/

namespace EventOrder

namespace Walk

variable {walk : Walk} {frame : Frame} {reference : List Event} {places : List TransitionRef}

/-- A bound on the frames that a walk has still to visit: those on its stack, and for every place
not expanded yet all the frames that its expansion may send on. -/
def framesLeft (walk : Walk) (places : List TransitionRef) : Nat :=
  walk.stack.length + (places.filter fun place => !walk.visited.contains place).length *
    walk.knowledge.predecessors.size

/-- Expanding a place leaves fewer places to be expanded. -/
private theorem length_unvisited_lt {visited : Std.ExtTreeSet TransitionRef}
    {place : TransitionRef} (hplace : place ∈ places) (hnew : visited.contains place = false) :
    (places.filter fun other => !(visited.insert place).contains other).length <
      (places.filter fun other => !visited.contains other).length := by
  have hfilter : (places.filter fun other => !(visited.insert place).contains other) =
      (places.filter fun other => !visited.contains other).filter (· ≠ place) := by
    rw [List.filter_filter]
    refine List.filter_congr fun other _ => ?_
    rw [Std.ExtTreeSet.contains_insert]
    by_cases hsame : other = place
    · simp [hsame]
    · have hne : place ≠ other := fun heq => hsame heq.symm
      simp [hsame, hne]
  rw [hfilter, List.length_filter_lt_length_iff_exists]
  exact ⟨place, List.mem_filter.mpr ⟨hplace, by simp [hnew]⟩, by simp⟩

/-- Absorbing a frame leaves no more to be visited than there was without it. -/
private theorem framesLeft_absorb_le (walk : Walk) (state : StateId)
    (hplace : frame.place ∈ places) :
    (walk.absorb state frame).framesLeft places ≤ walk.framesLeft places := by
  have hfewer : (places.filter fun other =>
      !(walk.visited.insert frame.place).contains other).length ≤
        (places.filter fun other => !walk.visited.contains other).length := by
    refine (List.monotone_filter_right places fun other hother => ?_).length_le
    rw [Std.ExtTreeSet.contains_insert] at hother
    simp_all
  simp only [framesLeft, absorb]
  split
  · exact Nat.add_le_add (by simp) (Nat.mul_le_mul_right _ hfewer)
  · rename_i hexpands
    simp only [Bool.or_eq_true, not_or, Bool.not_eq_true] at hexpands
    have hfewer := Nat.mul_le_mul_right walk.knowledge.predecessors.size
      (length_unvisited_lt hplace hexpands.1)
    have honward := walk.knowledge.predecessors.length_of_le state
    rw [Nat.succ_mul] at hfewer
    rw [List.length_append, List.length_map]
    omega

/-- What holds at the start of a walk and is kept by every visit holds at its end. The walk does not
fail, and it ends with no frame left if every visit takes one of the visits that are left. -/
private theorem run_induction {motive : Nat → Walk → Prop} {left : Walk → Nat}
    (visit : ∀ (steps : Nat) (walk : Walk) (frame : Frame) (stack : List Frame),
      walk.stack = frame :: stack → motive (steps + 1) walk →
        ∃ next, { walk with stack }.visit reference frame = .ok next ∧ motive steps next ∧
          left next < left walk)
    (steps : Nat) {walk : Walk} (h : motive steps walk) (hsteps : left walk < steps) :
    ∃ last unused, walk.run reference steps = (last, .ok ()) ∧ motive unused last ∧
      last.stack = [] := by
  induction steps generalizing walk with
  | zero => exact absurd hsteps (Nat.not_lt_zero _)
  | succ steps ih =>
    cases hstack : walk.stack with
    | nil => exact ⟨walk, _, by simp [run, hstack], h, hstack⟩
    | cons frame stack =>
      obtain ⟨next, hvisit, hnext, hfewer⟩ := visit steps walk frame stack hstack h
      obtain ⟨last, unused, hrun, hlast, hempty⟩ := ih hnext (by omega)
      exact ⟨last, unused, by simp [run, hstack, hvisit, hrun], hlast, hempty⟩

/-- A visit absorbs at a place what it does not take out of a frame, once it has called for a
reordering there if need be. -/
theorem exists_absorb_of_visit {next : Walk} (hvisit : walk.visit reference frame = .ok next) :
    ∃ (state : StateId) (called : Walk) (carried : Frame), next = called.absorb state carried ∧
      carried.place = frame.place ∧ called.stack = walk.stack ∧ called.visited = walk.visited ∧
        called.knowledge.predecessors = walk.knowledge.predecessors ∧
        called.knowledge.summary = walk.knowledge.summary ∧
        ∀ access ∈ carried.footprint, access ∈ frame.footprint := by
  obtain ⟨transition, -, ⟨-, hnext⟩ | ⟨rest, hconflict, hnext⟩⟩ := visit_cases hvisit
  · exact ⟨_, walk, frame, hnext, rfl, rfl, rfl, rfl, rfl, fun _ => id⟩
  · obtain ⟨-, recorded, -, htake⟩ := of_conflictRest?_eq_some hconflict
    exact ⟨_, _, _, hnext, rfl, rfl, rfl, rfl, rfl,
      fun _ => Footprint.mem_of_takeConflict?_eq_some htake⟩

/-- A visit takes one of the visits that are left, and the frames stay at the places of the walk. -/
theorem framesLeft_visit_lt
    (hpredecessors : ∀ place ∈ walk.knowledge.predecessors.places, place ∈ places)
    (hplaces : ∀ frame ∈ walk.stack, frame.place ∈ places) {stack : List Frame}
    (hstack : walk.stack = frame :: stack) {next : Walk}
    (hvisit : { walk with stack }.visit reference frame = .ok next) :
    (∀ frame ∈ next.stack, frame.place ∈ places) ∧
      next.framesLeft places < walk.framesLeft places := by
  have hframe : frame ∈ walk.stack := by simp [hstack]
  have hleads (state : StateId) (place : TransitionRef)
      (hplace : place ∈ walk.knowledge.predecessors.of state) : place ∈ places :=
    hpredecessors place ((walk.knowledge.predecessors.sublist_places state).subset hplace)
  have hrest (other : Frame) (hother : other ∈ stack) : other.place ∈ places :=
    hplaces other (by simp [hstack, hother])
  have hpopped : ({ walk with stack } : Walk).framesLeft places < walk.framesLeft places := by
    simp [framesLeft, hstack]
  obtain ⟨state, called, carried, habsorb, hcarried, hcalledStack, hvisited, hsamePredecessors,
    -⟩ := exists_absorb_of_visit hvisit
  change called.stack = stack at hcalledStack
  have hsame : called.framesLeft places = ({ walk with stack } : Walk).framesLeft places := by
    simp only [framesLeft, hcalledStack, hvisited, hsamePredecessors]
  have hat : carried.place ∈ places := hcarried ▸ hplaces frame hframe
  refine ⟨fun other hother => ?_, ?_⟩
  · rw [habsorb] at hother
    rcases mem_stack_absorb hother with hold | ⟨hlead, -, -⟩
    · exact hrest other (hcalledStack ▸ hold)
    · exact hleads _ _ (hsamePredecessors ▸ hlead)
  · rw [habsorb]
    exact Nat.lt_of_le_of_lt (framesLeft_absorb_le called _ hat) (hsame ▸ hpopped)

end Walk

namespace Knowledge

variable {knowledge : Knowledge} {reference : List Event}

/-- A walk that starts has fewer frames to visit than it may. -/
theorem framesLeft_start_lt_walkBound (knowledge : Knowledge) (root : Frame) :
    (Walk.start knowledge root).framesLeft (root.place :: knowledge.predecessors.places) <
      knowledge.walkBound := by
  have hlength := List.length_filter_le
    (fun place => !(Walk.start knowledge root).visited.contains place)
    (root.place :: knowledge.predecessors.places)
  have hcount : (root.place :: knowledge.predecessors.places).length =
      knowledge.predecessors.size + 1 := by
    simp only [List.length_cons, Predecessors.length_places]
  have hproduct := Nat.mul_le_mul_right knowledge.predecessors.size (hcount ▸ hlength)
  have hstack : (Walk.start knowledge root).stack.length = 1 := rfl
  have hsame : (Walk.start knowledge root).knowledge = knowledge := rfl
  simp only [Walk.framesLeft, walkBound, hstack, hsame]
  omega

/-- A walk whose visits do not fail ends with no frame left, and what every visit keeps holds at its
end; it may depend on how many visits the walk may still make. -/
theorem propagate_induction_of_steps {root : Frame} {motive : Nat → Walk → Prop}
    (start : motive knowledge.walkBound (Walk.start knowledge root))
    (visit : ∀ (steps : Nat) (walk : Walk) (frame : Frame) (stack : List Frame),
      walk.stack = frame :: stack → motive (steps + 1) walk →
        ∃ next, { walk with stack }.visit reference frame = .ok next ∧ motive steps next) :
    ∃ last unused, knowledge.propagate root reference = (last.knowledge, .ok last.created) ∧
      last.stack = [] ∧ motive unused last := by
  let places := root.place :: knowledge.predecessors.places
  have hplaces : ∀ frame ∈ (Walk.start knowledge root).stack, frame.place ∈ places := by
    intro frame hframe
    rw [List.mem_singleton.mp hframe]
    exact List.mem_cons_self
  have hbound : (Walk.start knowledge root).framesLeft places < knowledge.walkBound :=
    knowledge.framesLeft_start_lt_walkBound root
  obtain ⟨last, unused, hrun, ⟨-, -, hlast⟩, hempty⟩ := Walk.run_induction
    (motive := fun steps walk => walk.knowledge.predecessors = knowledge.predecessors ∧
      (∀ frame ∈ walk.stack, frame.place ∈ places) ∧ motive steps walk)
    (fun steps walk frame stack hstack hwalk => by
      obtain ⟨hpredecessors, hplaces, hmotive⟩ := hwalk
      obtain ⟨next, hvisit, hnext⟩ := visit steps walk frame stack hstack hmotive
      obtain ⟨hstays, hfewer⟩ := Walk.framesLeft_visit_lt
        (fun place hplace => List.mem_cons_of_mem _ (hpredecessors ▸ hplace)) hplaces hstack hvisit
      obtain ⟨state, called, carried, habsorb, -, -, -, hsame, -⟩ :=
        Walk.exists_absorb_of_visit hvisit
      have hkept : next.knowledge.predecessors = knowledge.predecessors := by
        rw [habsorb]
        exact hsame.trans hpredecessors
      exact ⟨next, hvisit, ⟨hkept, hstays, hnext⟩, hfewer⟩)
    knowledge.walkBound ⟨rfl, hplaces, start⟩ hbound
  exact ⟨last, unused, by simp [propagate, hrun], hempty, hlast⟩

/-- A walk whose visits do not fail ends with no frame left, and what every visit keeps holds at its
end. -/
theorem propagate_induction {root : Frame} {motive : Walk → Prop}
    (start : motive (Walk.start knowledge root))
    (visit : ∀ (walk : Walk) (frame : Frame) (stack : List Frame), walk.stack = frame :: stack →
      motive walk → ∃ next, { walk with stack }.visit reference frame = .ok next ∧ motive next) :
    ∃ last, knowledge.propagate root reference = (last.knowledge, .ok last.created) ∧
      last.stack = [] ∧ motive last := by
  obtain ⟨last, unused, hpropagate, hempty, hlast⟩ := propagate_induction_of_steps
    (motive := fun _ => motive) start fun _ => visit
  exact ⟨last, hpropagate, hempty, hlast⟩

/-- What holds before events of a state are replayed, and is kept by every walk of the replay, holds
afterwards. -/
theorem replay_induction {state : StateId} {place : TransitionRef} {motive : Knowledge → Prop}
    (walks : ∀ (knowledge : Knowledge) (event : Event) (footprint : Footprint), motive knowledge →
      knowledge.summary.get? state event = some footprint →
        ∃ later created, knowledge.propagate ⟨place, event, footprint, true⟩ reference =
          (later, .ok created) ∧ motive later)
    (events : List Event) (created : Nat) (h : motive knowledge) :
    ∃ later total, replay state place reference events knowledge created = (later, .ok total) ∧
      motive later := by
  induction events generalizing knowledge created with
  | nil => exact ⟨knowledge, created, rfl, h⟩
  | cons event events ih =>
    unfold replay
    cases hentry : knowledge.summary.get? state event with
    | none => exact ih created h
    | some footprint =>
      obtain ⟨later, more, hpropagate, hlater⟩ := walks knowledge event footprint h hentry
      obtain ⟨last, total, hreplay, hlast⟩ := ih (created + more) hlater
      exact ⟨last, total, by simp [hpropagate, hreplay], hlast⟩

/-- A walk from a place that was taken does not fail, only learns and ends with no frame left, and
what every visit keeps holds at its end. -/
theorem Coherent.propagate_induction (h : knowledge.Coherent reference) {root : Frame}
    {transition : Transition} (hplace : knowledge.log.taken? root.place = some transition)
    (hevent : root.event ∈ reference) (hcarries : knowledge.Carries root.event root.footprint)
    {motive : Walk → Prop} (start : motive (Walk.start knowledge root))
    (visit : ∀ (walk : Walk) (frame : Frame) (stack : List Frame) (next : Walk),
      walk.stack = frame :: stack → walk.Learning reference knowledge →
        { walk with stack }.visit reference frame = .ok next → motive walk → motive next) :
    ∃ last, knowledge.propagate root reference = (last.knowledge, .ok last.created) ∧
      last.Learning reference knowledge ∧ last.stack = [] ∧ motive last := by
  have hlearning : (Walk.start knowledge root).Learning reference knowledge := by
    refine ⟨.refl, fun frame hframe => ?_, fun frame hframe => ?_, fun frame hframe => ?_⟩
    · rw [List.mem_singleton.mp hframe]
      exact ⟨transition, hplace⟩
    · rw [List.mem_singleton.mp hframe]
      exact hevent
    · rw [List.mem_singleton.mp hframe]
      exact hcarries
  obtain ⟨last, hpropagate, hempty, hlearns, hlast⟩ := Knowledge.propagate_induction
    (motive := fun walk => walk.Learning reference knowledge ∧ motive walk) ⟨hlearning, start⟩
    fun walk frame stack hstack hwalk => by
      obtain ⟨hlearning, hmotive⟩ := hwalk
      obtain ⟨next, hvisit, hnext⟩ := hlearning.visit h hstack
      exact ⟨next, hvisit, hnext, visit walk frame stack next hstack hlearning hvisit hmotive⟩
  exact ⟨last, hpropagate, hlearns, hempty, hlast⟩

/-- A walk from a place that was taken does not fail and only learns. -/
theorem Coherent.propagate_learns (h : knowledge.Coherent reference) (root : Frame)
    {transition : Transition} (hplace : knowledge.log.taken? root.place = some transition)
    (hevent : root.event ∈ reference) (hcarries : knowledge.Carries root.event root.footprint) :
    ∃ later created, knowledge.propagate root reference = (later, .ok created) ∧
      knowledge.Learns reference later := by
  obtain ⟨last, hpropagate, hlast, -, -⟩ := h.propagate_induction hplace hevent hcarries
    (motive := fun _ => True) trivial fun _ _ _ _ _ _ _ _ => trivial
  exact ⟨_, _, hpropagate, hlast.learns⟩

/-- Completing the event taken at a place does not fail and only learns. -/
theorem Coherent.eventCompleted_learns (h : knowledge.Coherent reference) {place : TransitionRef}
    {transition : Transition} (hplace : knowledge.log.taken? place = some transition) :
    ∃ later created, knowledge.eventCompleted place reference = (later, .ok created) ∧
      knowledge.Learns reference later := by
  unfold eventCompleted
  cases hfootprint : knowledge.log.footprint? place with
  | none => exact ⟨knowledge, 0, rfl, .refl⟩
  | some footprint =>
    simp only [transitionAt, ExecutionLog.transition?_of_taken? hplace]
    exact h.propagate_learns _ hplace (h.event_of_taken _ _ hplace) (.recorded hplace hfootprint)

/-- Meeting a state again after a place that was taken does not fail and only learns. -/
theorem Coherent.stateRevisited_learns (h : knowledge.Coherent reference) {place : TransitionRef}
    {transition : Transition} (hplace : knowledge.log.taken? place = some transition)
    (state : StateId) :
    ∃ later created, knowledge.stateRevisited state place reference = (later, .ok created) ∧
      knowledge.Learns reference later := by
  refine replay_induction (fun between event footprint hlearns hentry => ?_) _ 0 .refl
  have hbetween := hlearns.coherent h
  have hevent : event ∈ reference := hbetween.event_of_summary state event (by simp [hentry])
  obtain ⟨later, created, hpropagate, hthen⟩ := hbetween.propagate_learns
    ⟨place, event, footprint, true⟩ (by rw [hlearns.log_eq]; exact hplace) hevent
    (.summarised hentry)
  exact ⟨later, created, hpropagate, hlearns.trans hthen⟩

end Knowledge

end EventOrder
