import EventOrder.Proofs.Race.Propagation
import Mathlib.Algebra.Ring.Nat

/-!
# Frames taken off the stack

A backward walk takes one frame after the other off its stack until none is left or one stands at a
place that holds no transition. This file follows that loop without a limit on its rounds, on all
knowledge: the predecessors may have cycles, lead back to where they come from, come together again
or stand at places that hold no transition. The loop comes to its end, a place is expanded once at
most, and what was expanded accounts for every frame that was taken off.
-/

namespace EventOrder

/-- The places that lead into the state of a place, as far as the place holds a transition. -/
def Knowledge.leadingTo (knowledge : Knowledge) (place : TransitionRef) : List TransitionRef :=
  ((knowledge.log.transition? place).map fun transition =>
    knowledge.predecessors.of transition.state).getD []

/-- A frame that was taken off the stack. -/
structure Pop where
  /-- The frame. -/
  frame : Frame
  /-- Whether its place was expanded: what was news there went on to the predecessors. -/
  expanded : Bool

/-- The places that were expanded, in order. -/
def Pop.expansions (pops : List Pop) : List TransitionRef :=
  (pops.filter (·.expanded)).map (·.frame.place)

@[simp]
theorem Pop.expansions_nil : expansions [] = [] := rfl

@[simp]
theorem Pop.expansions_cons (frame : Frame) (expanded : Bool) (pops : List Pop) :
    expansions (⟨frame, expanded⟩ :: pops) =
      if expanded = true then frame.place :: expansions pops else expansions pops := by
  cases expanded <;> rfl

namespace Walk

/-- Whether a visit expands the place of its frame: the place was not visited before, and something
of what the frame carries there, once a conflict is settled, is news for the place's state. -/
def expands (walk : Walk) (reference : List Event) (frame : Frame) : Bool :=
  match walk.knowledge.transitionAt frame.place, walk.settleConflict reference frame with
  | .ok transition, .ok (_, carried) =>
    !walk.visited.contains frame.place &&
      !(walk.knowledge.summary.absorb transition.state carried.event carried.footprint).1.isEmpty
  | _, _ => false

/-- The loop of a walk, without a limit on its rounds: the frames that it takes off the stack, one
after the other, and what it comes to. -/
inductive Pops (reference : List Event) : Walk → List Pop → Attempt Walk Unit → Prop
  /-- No frame is left. -/
  | done {walk : Walk} (hempty : walk.stack = []) : Pops reference walk [] (walk, .ok ())
  /-- The visit of the next frame fails. -/
  | fails {walk : Walk} {frame : Frame} {stack : List Frame} {error : ExplorationError}
      (hstack : walk.stack = frame :: stack)
      (hvisit : { walk with stack }.visit reference frame = .error error) :
      Pops reference walk [⟨frame, false⟩] (walk, .error error)
  /-- The next frame is visited, and the loop goes on. -/
  | visits {walk next : Walk} {frame : Frame} {stack : List Frame} {pops : List Pop}
      {attempt : Attempt Walk Unit} (hstack : walk.stack = frame :: stack)
      (hvisit : { walk with stack }.visit reference frame = .ok next)
      (hrest : Pops reference next pops attempt) :
      Pops reference walk (⟨frame, { walk with stack }.expands reference frame⟩ :: pops) attempt

variable {walk next : Walk} {frame : Frame} {reference : List Event} {pops others : List Pop}
  {attempt other : Attempt Walk Unit}

/-- What a visit leaves on the stack: if it expands the place, one frame more for each predecessor
of its state. -/
theorem places_stack_visit (hvisit : walk.visit reference frame = .ok next) :
    next.stack.map (·.place) =
      (if walk.expands reference frame = true then walk.knowledge.leadingTo frame.place else []) ++
        walk.stack.map (·.place) := by
  have habsorb {called : Walk} {carried : Frame} {transition : Transition}
      (hplace : walk.knowledge.log.transition? frame.place = some transition)
      (hsettle : walk.settleConflict reference frame = .ok (called, carried))
      (hcalled : called = { walk with
        knowledge := { walk.knowledge with backlog := called.knowledge.backlog }
        created := called.created })
      (hcarried : carried.place = frame.place) :
      (called.absorb transition.state carried).stack.map (·.place) =
        (if walk.expands reference frame = true then walk.knowledge.leadingTo frame.place
          else []) ++ walk.stack.map (·.place) := by
    have hexpands : walk.expands reference frame = !(walk.visited.contains frame.place ||
        (walk.knowledge.summary.absorb transition.state carried.event
          carried.footprint).1.isEmpty) := by
      simp only [expands, transitionAt_eq hplace, hsettle, Bool.not_or]
    have hleading : walk.knowledge.leadingTo frame.place =
        walk.knowledge.predecessors.of transition.state := by
      simp only [Knowledge.leadingTo, hplace, Option.map_some, Option.getD_some]
    rw [hexpands, hleading, hcalled, absorb]
    simp only [hcarried, List.map_append]
    congr 1
    split <;> rename_i honward
    · simp [honward]
    · simp [honward, Function.comp_def]
  obtain ⟨transition, hplace, ⟨hrest, rfl⟩ | ⟨rest, hrest, rfl⟩⟩ := visit_cases hvisit
  · exact habsorb hplace (settleConflict_of_conflictRest?_eq_none hplace hrest) rfl rfl
  · exact habsorb hplace (settleConflict_of_conflictRest?_eq_some hplace hrest) rfl rfl

/-- A visit notes its place and leaves what the expansion of places depends on. -/
theorem kept_visit (hvisit : walk.visit reference frame = .ok next) :
    next.visited = walk.visited.insert frame.place ∧
      next.knowledge.leadingTo = walk.knowledge.leadingTo ∧
      next.knowledge.predecessors = walk.knowledge.predecessors ∧
      next.knowledge.log = walk.knowledge.log := by
  obtain ⟨transition, -, ⟨-, rfl⟩ | ⟨rest, -, rfl⟩⟩ := visit_cases hvisit <;>
    exact ⟨rfl, rfl, rfl, rfl⟩

/-- A place that was visited before is not expanded. -/
theorem not_contains_of_expands (h : walk.expands reference frame = true) :
    walk.visited.contains frame.place = false := by
  unfold expands at h
  split at h
  · rw [Bool.and_eq_true, Bool.not_eq_true'] at h
    exact h.1
  · exact absurd h Bool.false_ne_true

namespace Pops

/-- The loop takes the same frames off the stack whenever it runs, and comes to the same. -/
theorem unique (h : Pops reference walk pops attempt) (hother : Pops reference walk others other) :
    others = pops ∧ other = attempt := by
  induction h generalizing others other with
  | done hempty =>
    cases hother with
    | done _ => exact ⟨rfl, rfl⟩
    | fails hstack _ => simp [hempty] at hstack
    | visits hstack _ _ => simp [hempty] at hstack
  | fails hstack hvisit =>
    cases hother with
    | done hempty => simp [hempty] at hstack
    | fails hstack' hvisit' =>
      obtain ⟨rfl, rfl⟩ := List.cons.inj (hstack.symm.trans hstack')
      cases hvisit.symm.trans hvisit'
      exact ⟨rfl, rfl⟩
    | visits hstack' hvisit' _ =>
      obtain ⟨rfl, rfl⟩ := List.cons.inj (hstack.symm.trans hstack')
      cases hvisit.symm.trans hvisit'
  | visits hstack hvisit _ ih =>
    cases hother with
    | done hempty => simp [hempty] at hstack
    | fails hstack' hvisit' =>
      obtain ⟨rfl, rfl⟩ := List.cons.inj (hstack.symm.trans hstack')
      cases hvisit.symm.trans hvisit'
    | visits hstack' hvisit' hrest =>
      obtain ⟨rfl, rfl⟩ := List.cons.inj (hstack.symm.trans hstack')
      cases hvisit.symm.trans hvisit'
      obtain ⟨rfl, rfl⟩ := ih hrest
      exact ⟨rfl, rfl⟩

/-- No place is expanded that was visited before, and none twice. -/
theorem nodup_expansions (h : Pops reference walk pops attempt) :
    (Pop.expansions pops).Nodup ∧
      ∀ place ∈ Pop.expansions pops, walk.visited.contains place = false := by
  induction h with
  | done _ => simp
  | fails _ _ => simp
  | @visits walk next frame stack pops _ hstack hvisit _ ih =>
    obtain ⟨hnodup, hunvisited⟩ := ih
    have hlater (place : TransitionRef) (hplace : place ∈ Pop.expansions pops) :
        frame.place ≠ place ∧ walk.visited.contains place = false := by
      have hafter := hunvisited place hplace
      rw [(kept_visit hvisit).1, Std.ExtTreeSet.contains_insert] at hafter
      simpa using hafter
    rw [Pop.expansions_cons]
    split
    · rename_i hexpands
      have hfresh := not_contains_of_expands hexpands
      refine ⟨List.nodup_cons.mpr ⟨fun hagain => (hlater _ hagain).1 rfl, hnodup⟩, ?_⟩
      intro place hplace
      rcases List.mem_cons.mp hplace with rfl | hplace
      · exact hfresh
      · exact (hlater place hplace).2
    · exact ⟨hnodup, fun place hplace => (hlater place hplace).2⟩

/-- A frame that is taken off the stack was there or stands at a place that leads to one that was
expanded. -/
theorem place_of_mem (h : Pops reference walk pops attempt) {pop : Pop} (hpop : pop ∈ pops) :
    pop.frame.place ∈ walk.stack.map (·.place) ∨
      ∃ place ∈ Pop.expansions pops, pop.frame.place ∈ walk.knowledge.leadingTo place := by
  induction h with
  | done _ => simp at hpop
  | fails hstack _ =>
    rw [List.mem_singleton.mp hpop]
    simp [hstack]
  | @visits walk next frame stack pops _ hstack hvisit _ ih =>
    rcases List.mem_cons.mp hpop with rfl | hpop
    · simp [hstack]
    · rcases ih hpop with hstays | ⟨place, hplace, hleads⟩
      · rw [places_stack_visit hvisit, List.mem_append] at hstays
        rcases hstays with honward | hold
        · split at honward
          · rename_i hexpands
            exact .inr ⟨frame.place, by simp [hexpands], honward⟩
          · exact absurd honward List.not_mem_nil
        · refine .inl ?_
          rw [hstack, List.map_cons]
          exact List.mem_cons_of_mem _ hold
      · rw [(kept_visit hvisit).2.1] at hleads
        refine .inr ⟨place, ?_, hleads⟩
        rw [Pop.expansions_cons]
        split
        · exact List.mem_cons_of_mem _ hplace
        · exact hplace

/-- The frames that are taken off and those that are left behind the last one are those of the stack
and one for every predecessor of a place that was expanded. -/
theorem length_add_length (h : Pops reference walk pops attempt) :
    pops.length + attempt.1.stack.tail.length = walk.stack.length +
      ((Pop.expansions pops).map fun place => (walk.knowledge.leadingTo place).length).sum := by
  induction h with
  | done hempty => simp [hempty]
  -- A walk that fails still has on its stack the frame that failed, hence the tail.
  | fails hstack _ => simp [hstack, Nat.add_comm]
  | @visits walk next frame stack pops attempt hstack hvisit _ ih =>
    have hkept : next.knowledge.leadingTo = walk.knowledge.leadingTo := (kept_visit hvisit).2.1
    have hplaces : next.stack.length =
        (if ({ walk with stack } : Walk).expands reference frame = true then
          walk.knowledge.leadingTo frame.place else []).length + stack.length := by
      simpa only [List.length_map, List.length_append] using
        congrArg List.length (places_stack_visit hvisit)
    rw [hkept] at ih
    rw [hstack, List.length_cons, List.length_cons, Pop.expansions_cons]
    split <;> rename_i hexpands
    · rw [if_pos hexpands] at hplaces
      rw [List.map_cons, List.sum_cons]
      omega
    · rw [if_neg hexpands, List.length_nil] at hplaces
      omega

/-- The loop ends with no frame left or with one that stands at a place that holds no transition. -/
theorem ends (h : Pops reference walk pops attempt) :
    (attempt.2 = .ok () ∧ attempt.1.stack = []) ∨
      ∃ pop, pops.getLast? = some pop ∧ walk.knowledge.log.transition? pop.frame.place = none ∧
        attempt.2 = .error (.unknownTransition pop.frame.place) := by
  induction h with
  | done hempty => exact .inl ⟨rfl, hempty⟩
  | @fails walk frame stack error _ hvisit =>
    refine .inr ⟨_, rfl, ?_⟩
    cases hplace : walk.knowledge.log.transition? frame.place with
    | none =>
      have hunknown : ({ walk with stack } : Walk).visit reference frame = _ :=
        visit_of_transition?_eq_none hplace
      cases hvisit.symm.trans hunknown
      exact ⟨hplace, rfl⟩
    | some transition =>
      have hknown : ({ walk with stack } : Walk).knowledge.log.transition? frame.place =
          some transition := hplace
      obtain ⟨next, hnext⟩ := exists_visit_of_transition? hknown reference
      rw [hnext] at hvisit
      cases hvisit
  | @visits walk next frame stack pops _ _ hvisit _ ih =>
    rw [(kept_visit hvisit).2.2.2] at ih
    rcases ih with hok | ⟨pop, hlast, hfails⟩
    · exact .inl hok
    · refine .inr ⟨pop, ?_, hfails⟩
      rw [List.getLast?_cons, hlast]
      rfl

end Pops

/-- A run that has visits enough is the loop without a limit. -/
theorem exists_pops_run (reference : List Event) {places : List TransitionRef} (steps : Nat)
    (walk : Walk)
    (hpredecessors : ∀ place ∈ walk.knowledge.predecessors.places, place ∈ places)
    (hplaces : ∀ frame ∈ walk.stack, frame.place ∈ places)
    (hsteps : walk.framesLeft places < steps) :
    ∃ pops, Pops reference walk pops (walk.run reference steps) := by
  -- Each visit takes at least one of the visits that are left, so they last to the end.
  induction steps generalizing walk with
  | zero => exact absurd hsteps (Nat.not_lt_zero _)
  | succ steps ih =>
    cases hstack : walk.stack with
    | nil =>
      have hrun : walk.run reference (steps + 1) = (walk, .ok ()) := by simp only [run, hstack]
      rw [hrun]
      exact ⟨[], .done hstack⟩
    | cons frame stack =>
      cases hvisit : ({ walk with stack } : Walk).visit reference frame with
      | error error =>
        have hrun : walk.run reference (steps + 1) = (walk, .error error) := by
          simp only [run, hstack, hvisit]
        rw [hrun]
        exact ⟨_, .fails hstack hvisit⟩
      | ok next =>
        have hrun : walk.run reference (steps + 1) = next.run reference steps := by
          simp only [run, hstack, hvisit]
        obtain ⟨hnextPlaces, hfewer⟩ := framesLeft_visit_lt hpredecessors hplaces hstack hvisit
        have hkept := (kept_visit hvisit).2.2.1
        obtain ⟨pops, hpops⟩ := ih next (fun place hplace => hpredecessors place (hkept ▸ hplace))
          hnextPlaces (by omega)
        rw [hrun]
        exact ⟨_, .visits hstack hvisit hpops⟩

end Walk

namespace Knowledge

/-- On all knowledge, a walk from any root in any reference order ends. The loop without a limit has
one course only, and the walk comes to what that loop comes to. No place is expanded twice; every
frame taken off the stack stands at the root's place or at a recorded predecessor of one that was
expanded; and besides the root there are no more frames than predecessors of expanded places, as
many if the walk succeeds. If it fails, the last frame stands at a place that holds no transition,
which the error names. -/
theorem propagate_pops (knowledge : Knowledge) (root : Frame) (reference : List Event) :
    ∃ (pops : List Pop) (last : Walk) (outcome : Except ExplorationError Unit),
      (∀ others attempt, Walk.Pops reference (.start knowledge root) others attempt ↔
        others = pops ∧ attempt = (last, outcome)) ∧
      knowledge.propagate root reference =
        (last.knowledge, outcome.map fun _ => last.created) ∧
      (Pop.expansions pops).Nodup ∧
      (∀ pop ∈ pops, pop.frame.place = root.place ∨
        ∃ place ∈ Pop.expansions pops, pop.frame.place ∈ knowledge.leadingTo place) ∧
      pops.length ≤
        1 + ((Pop.expansions pops).map fun place => (knowledge.leadingTo place).length).sum ∧
      ((outcome = .ok () ∧ last.stack = [] ∧ pops.length =
          1 + ((Pop.expansions pops).map fun place => (knowledge.leadingTo place).length).sum) ∨
        ∃ pop, pops.getLast? = some pop ∧ knowledge.log.transition? pop.frame.place = none ∧
          outcome = .error (.unknownTransition pop.frame.place)) := by
  obtain ⟨pops, hpops⟩ := Walk.exists_pops_run reference knowledge.walkBound
    (Walk.start knowledge root)
    (fun place hplace => List.mem_cons_of_mem root.place hplace)
    (fun frame hframe => by
      rw [List.mem_singleton.mp hframe]
      exact List.mem_cons_self)
    (knowledge.framesLeft_start_lt_walkBound root)
  unfold propagate
  generalize (Walk.start knowledge root).run reference knowledge.walkBound = attempt at hpops
  obtain ⟨last, outcome⟩ := attempt
  have hlength : pops.length + last.stack.tail.length =
      1 + ((Pop.expansions pops).map fun place => (knowledge.leadingTo place).length).sum :=
    hpops.length_add_length
  refine ⟨pops, last, outcome, fun others attempt => ⟨hpops.unique, ?_⟩, ?_,
    hpops.nodup_expansions.1, fun pop hpop => ?_, by omega, ?_⟩
  · rintro ⟨rfl, rfl⟩
    exact hpops
  · cases outcome <;> rfl
  · simpa [Walk.start] using hpops.place_of_mem hpop
  · rcases hpops.ends with ⟨hok, hempty⟩ | hfails
    · change last.stack = [] at hempty
      rw [hempty, List.tail_nil, List.length_nil, Nat.add_zero] at hlength
      exact .inl ⟨hok, hempty, hlength⟩
    · exact .inr hfails

end Knowledge

end EventOrder
