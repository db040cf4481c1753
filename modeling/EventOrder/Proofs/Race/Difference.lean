import EventOrder.Proofs.Race.Accumulation

/-!
# What a summary answers

A summary answers each footprint with the part of it that was news for its entry, and a walk goes on
with that part alone. This file says what is answered over a whole history of footprints, and which
states and events the summary lists in the end. An empty footprint is answered like any other but
leaves no entry.
-/

namespace EventOrder

/-- A footprint names a field. -/
def Footprint.Names (footprint : Footprint) (kind : AccessKind) (field : String) : Prop :=
  (footprint.entries kind)[field]? ≠ none

/-- There is a last owner as soon as one footprint names the field. -/
theorem lastOwner?_eq_none_iff {kind : AccessKind} {field : String} {footprints : List Footprint} :
    lastOwner? kind field footprints = none ↔
      ∀ footprint ∈ footprints, ¬ footprint.Names kind field := by
  induction footprints with
  | nil => simp [lastOwner?]
  | cons footprint footprints ih =>
    rw [lastOwner?, Option.or_eq_none_iff, ih, List.forall_mem_cons, Footprint.Names,
      Decidable.not_not]
    exact and_comm

namespace Summary

variable {summary : Summary} {contributions : List Contribution} {state other : StateId}
  {event another : Event} {footprint : Footprint}

/-- What is answered to each of the contributions, absorbed one after the other. -/
def answers (summary : Summary) : List Contribution → List Footprint
  | [] => []
  | given :: later =>
    let (news, next) := summary.absorb given.state given.event given.footprint
    news :: next.answers later

/-- Something other than the empty footprint was given for the event at the state. -/
def Given (contributions : List Contribution) (state : StateId) (event : Event) : Prop :=
  ∃ given ∈ contributions,
    given.state = state ∧ given.event = event ∧ given.footprint.isEmpty = false

@[simp]
theorem not_given_nil : ¬ Given [] state event := by
  simp [Given]

theorem given_cons {given : Contribution} {later : List Contribution} :
    Given (given :: later) state event ↔
      (given.state = state ∧ given.event = event ∧ given.footprint.isEmpty = false) ∨
        Given later state event := by
  simp [Given]

/-- A footprint is answered by what the contributions before it left out of its entry. -/
theorem getElem?_answers (summary : Summary) {index : Nat} {given : Contribution}
    (hgiven : contributions[index]? = some given) :
    (summary.answers contributions)[index]? =
      some ((summary.absorbAll (contributions.take index)).absorb given.state given.event
        given.footprint).1 := by
  induction contributions generalizing summary index with
  | nil => simp at hgiven
  | cons first later ih =>
    cases index with
    | zero =>
      obtain rfl := Option.some.inj hgiven
      rfl
    | succ index => exact ih _ hgiven

/-- An entry holds what was held before or absorbed for it, by the last owner given for a field. -/
theorem mem_footprintAt_absorbAll {access : Access} :
    access ∈ (summary.absorbAll contributions).footprintAt state event ↔
      lastOwner? access.kind access.field (contributed contributions state event) =
          some access.owner ∨
        lastOwner? access.kind access.field (contributed contributions state event) = none ∧
          access ∈ summary.footprintAt state event := by
  rw [Footprint.mem_iff, getElem?_footprintAt_absorbAll, Option.or_eq_some_iff, Footprint.mem_iff]

/-- A footprint that was just absorbed brings no news. -/
theorem absorb_absorb (summary : Summary) (state : StateId) (event : Event)
    (footprint : Footprint) :
    (summary.absorb state event footprint).2.absorb state event footprint =
      (.empty, (summary.absorb state event footprint).2) :=
  absorb_of_forall_mem fun _ => mem_footprintAt_absorb_self summary state event

/-- Nothing given leaves an entry as it is. -/
theorem get?_absorbAll_of_contributed_eq_nil
    (hnone : contributed contributions state event = []) :
    (summary.absorbAll contributions).get? state event = summary.get? state event := by
  induction contributions generalizing summary with
  | nil => rfl
  | cons given later ih =>
    have hother : ¬ (given.state = state ∧ given.event = event) := fun hsame => by
      simp [contributed, hsame] at hnone
    have hlater : contributed later state event = [] := by
      simpa [contributed, hother] using hnone
    calc (summary.absorbAll (given :: later)).get? state event
        = (summary.absorb given.state given.event given.footprint).2.get? state event := ih hlater
      _ = summary.get? state event := by rw [get?_absorb, if_neg fun hsame => hother hsame.2]

/-- A footprint that is not empty adds its state to those with an entry. -/
theorem containsState_absorb_iff :
    (summary.absorb state event footprint).2.containsState other = true ↔
      summary.containsState other = true ∨ state = other ∧ footprint.isEmpty = false := by
  unfold absorb
  split
  · rename_i hempty
    simp [hempty]
  · rename_i hnonempty
    rw [Bool.not_eq_true] at hnonempty
    simp only [containsState, insert, Std.ExtTreeMap.contains_insert, Bool.or_eq_true, beq_iff_eq,
      Std.compare_eq_iff_eq, hnonempty, and_true]
    exact or_comm

/-- A footprint that is not empty adds its event to those listed at its state. -/
theorem mem_eventsAt_absorb :
    another ∈ (summary.absorb state event footprint).2.eventsAt other ↔
      another ∈ summary.eventsAt other ∨
        state = other ∧ event = another ∧ footprint.isEmpty = false := by
  rw [mem_eventsAt, mem_eventsAt, get?_absorb]
  split
  · rename_i hsame
    simp [hsame]
  · rename_i hother
    constructor
    · exact Or.inl
    · rintro (hold | ⟨hstate, hevent, hnonempty⟩)
      · exact hold
      · exact absurd ⟨hnonempty, hstate, hevent⟩ hother

/-- The states with an entry are those from before and those that something was given for. -/
theorem containsState_absorbAll :
    (summary.absorbAll contributions).containsState state = true ↔
      summary.containsState state = true ∨ ∃ event, Given contributions state event := by
  induction contributions generalizing summary with
  | nil => simp [absorbAll]
  | cons given later ih =>
    change ((summary.absorb _ _ _).2.absorbAll later).containsState state = true ↔ _
    rw [ih, containsState_absorb_iff]
    simp only [given_cons, exists_or, or_assoc]
    simp

/-- The events listed at a state are those from before and those that something was given for. -/
theorem mem_eventsAt_absorbAll :
    event ∈ (summary.absorbAll contributions).eventsAt state ↔
      event ∈ summary.eventsAt state ∨ Given contributions state event := by
  induction contributions generalizing summary with
  | nil => simp [absorbAll]
  | cons given later ih =>
    change event ∈ ((summary.absorb _ _ _).2.absorbAll later).eventsAt state ↔ _
    rw [ih, mem_eventsAt_absorb, given_cons, or_assoc]

/-- The events listed at a state ascend, so none is listed twice. -/
theorem pairwise_eventsAt (summary : Summary) (state : StateId) :
    (summary.eventsAt state).Pairwise fun event another => event.number < another.number := by
  have hordered := Std.ExtTreeMap.ordered_keys (t := summary.entries[state]?.getD ∅)
  exact hordered.imp fun hless => Nat.compare_eq_lt.mp hless

/-- On every summary, whatever is given to it one after the other: each footprint is answered with
exactly the accesses that its entry did not hold just before it; an entry holds in the end, for each
kind and field that was named for it, the owner named last, and what it held before for the others;
giving the last footprint again is answered with nothing and changes nothing; an entry that nothing
was given for stays as it is; the states with an entry, and the events listed at them in ascending
order, are those from before and those that something other than the empty footprint was given for,
so in a summary that starts empty exactly the latter. -/
theorem absorbAll_differences (summary : Summary) (contributions : List Contribution) :
    let after := summary.absorbAll contributions
    (summary.answers contributions).length = contributions.length ∧
    (∀ (index : Nat) (given : Contribution), contributions[index]? = some given →
      ∃ news, (summary.answers contributions)[index]? = some news ∧
        ∀ access, access ∈ news ↔ access ∈ given.footprint ∧
          access ∉ (summary.absorbAll (contributions.take index)).footprintAt given.state
            given.event) ∧
    (∀ (state : StateId) (event : Event) (access : Access),
      access ∈ after.footprintAt state event ↔
        lastOwner? access.kind access.field (contributed contributions state event) =
            some access.owner ∨
          access ∈ summary.footprintAt state event ∧
            ∀ footprint ∈ contributed contributions state event,
              ¬ footprint.Names access.kind access.field) ∧
    (∀ given, contributions.getLast? = some given →
      after.absorb given.state given.event given.footprint = (.empty, after)) ∧
    (∀ state event, contributed contributions state event = [] →
      after.get? state event = summary.get? state event) ∧
    (∀ state, after.containsState state = true ↔
      summary.containsState state = true ∨ ∃ event, Given contributions state event) ∧
    (∀ state event, event ∈ after.eventsAt state ↔
      event ∈ summary.eventsAt state ∨ Given contributions state event) ∧
    (∀ state, (after.eventsAt state).Pairwise fun event another => event.number < another.number) ∧
    (∀ state, (empty.absorbAll contributions).containsState state = true ↔
      ∃ event, Given contributions state event) ∧
    ∀ state event, event ∈ (empty.absorbAll contributions).eventsAt state ↔
      Given contributions state event := by
  intro after
  refine ⟨?_, fun index given hgiven => ?_, fun state event access => ?_, fun given hlast => ?_,
    fun _ _ => get?_absorbAll_of_contributed_eq_nil, fun _ => containsState_absorbAll,
    fun _ _ => mem_eventsAt_absorbAll, fun state => pairwise_eventsAt _ state, fun state => ?_,
    fun state event => ?_⟩
  · clear after
    induction contributions generalizing summary with
    | nil => rfl
    | cons given later ih => exact congrArg (· + 1) (ih _)
  · exact ⟨_, summary.getElem?_answers hgiven, fun access => mem_absorb_fst⟩
  · rw [mem_footprintAt_absorbAll, lastOwner?_eq_none_iff]
    exact or_congr_right and_comm
  · obtain ⟨before, rfl⟩ := List.getLast?_eq_some_iff.mp hlast
    have hafter : after =
        ((summary.absorbAll before).absorb given.state given.event given.footprint).2 := by
      simp [after, absorbAll]
    rw [hafter, absorb_absorb]
  · have hempty : empty.containsState state = false := rfl
    rw [containsState_absorbAll, hempty]
    simp
  · have hempty : empty.eventsAt state = [] := rfl
    rw [mem_eventsAt_absorbAll, hempty]
    simp

end Summary

end EventOrder
