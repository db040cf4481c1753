import EventOrder.Machine.Basic
import EventOrder.Proofs.Explorer.Conclusion

/-!
# The numbering of states

A machine gives every list of values that it settles in a number of its own, counted from 1, and
never takes a number back. Bringing the machine back to a state that has a number therefore gives
no new number, and it restores the values of that state.
-/

namespace EventOrder.Machine

variable {machine : Machine}

/-- The numbering is one to one onto the numbers from 1 on. -/
structure Numbered (machine : Machine) : Prop where
  /-- States are numbered from 1 on without gaps. -/
  inRange : ∀ (values : Values) (state : StateId), machine.numbering[values]? = some state →
    0 < state.number ∧ state.number ≤ machine.statesSeen
  /-- Different values make different states. -/
  injective : ∀ (values others : Values) (state : StateId),
    machine.numbering[values]? = some state → machine.numbering[others]? = some state →
      values = others

/-- The machine stands in a numbered state. -/
structure Settled (machine : Machine) : Prop extends machine.Numbered where
  /-- The state is the one numbered for the values. -/
  here : machine.numbering[machine.values]? = some machine.state

/-- The machine holds the values that it was moved to. -/
@[simp]
theorem values_moveTo (machine : Machine) (values : Values) :
    (machine.moveTo values).values = values := by
  unfold moveTo settle
  split <;> rfl

/-- Moving leaves the decision points as they are. -/
theorem moveTo_same (machine : Machine) (values : Values) :
    (machine.moveTo values).closed = machine.closed ∧
      (machine.moveTo values).nextPoint = machine.nextPoint ∧
      (machine.moveTo values).installed = machine.installed := by
  unfold moveTo settle
  split <;> exact ⟨rfl, rfl, rfl⟩

/-- Moving to values that make a numbered state gives no number. -/
theorem moveTo_of_numbered {values : Values} {state : StateId}
    (h : machine.numbering[values]? = some state) :
    machine.moveTo values = { machine with values, state, isNew := false } := by
  simp [moveTo, settle, h]

/-- Moving to other values gives them the next number. -/
theorem moveTo_of_unnumbered {values : Values} (h : machine.numbering[values]? = none) :
    machine.moveTo values =
      { machine with
        values, isNew := true
        state := ⟨machine.statesSeen + 1⟩
        numbering := machine.numbering.insert values ⟨machine.statesSeen + 1⟩ } := by
  simp [moveTo, settle, h, statesSeen]

/-- What a move leads to does not depend on a numbered state that the machine was in between. -/
theorem moveTo_moveTo_of_numbered {values : Values} {state : StateId}
    (h : machine.numbering[values]? = some state) (others : Values) :
    (machine.moveTo values).moveTo others = machine.moveTo others := by
  rw [moveTo_of_numbered h]
  rfl

/-- The numbers after a move: the values moved to have the number of the state, all others have the
number they had. -/
theorem getElem?_numbering_moveTo (machine : Machine) (values others : Values) :
    (machine.moveTo values).numbering[others]? =
      if others = values then some (machine.moveTo values).state
      else machine.numbering[others]? := by
  cases hnumbered : machine.numbering[values]? with
  | some state =>
    rw [moveTo_of_numbered hnumbered]
    split
    · rename_i hsame
      rw [hsame, hnumbered]
    · rfl
  | none =>
    rw [moveTo_of_unnumbered hnumbered]
    simp [Std.ExtTreeMap.getElem?_insert, @eq_comm _ values]

/-- The state is a new one when the values had no number. -/
theorem isNew_moveTo (machine : Machine) (values : Values) :
    (machine.moveTo values).isNew = true ↔ machine.numbering[values]? = none := by
  cases hnumbered : machine.numbering[values]? with
  | some state => simp [moveTo_of_numbered hnumbered]
  | none => simp [moveTo_of_unnumbered hnumbered]

/-- The state is a new one when the values were not numbered. -/
theorem isNew_moveTo_iff_notMem (machine : Machine) (values : Values) :
    (machine.moveTo values).isNew = true ↔ values ∉ machine.numbering := by
  rw [isNew_moveTo, Std.ExtTreeMap.mem_iff_isSome_getElem?, Option.not_isSome_iff_eq_none]

/-- The values that have a number after a move. -/
theorem mem_numbering_moveTo (machine : Machine) {values others : Values} :
    others ∈ (machine.moveTo values).numbering ↔ others = values ∨ others ∈ machine.numbering := by
  simp only [Std.ExtTreeMap.mem_iff_isSome_getElem?, getElem?_numbering_moveTo]
  split
  · rename_i hsame
    simp [hsame]
  · rename_i hother
    simp [hother]

/-- One more state is numbered when the machine settles in it for the first time. -/
theorem statesSeen_moveTo (machine : Machine) (values : Values) :
    (machine.moveTo values).statesSeen =
      machine.statesSeen + (machine.moveTo values).isNew.toNat := by
  cases hnumbered : machine.numbering[values]? with
  | some state => simp [moveTo_of_numbered hnumbered, statesSeen]
  | none =>
    rw [moveTo_of_unnumbered hnumbered]
    simp [statesSeen, Std.ExtTreeMap.size_insert, Std.ExtTreeMap.mem_iff_isSome_getElem?, hnumbered]

/-- No number is taken back. -/
theorem numbering_moveTo {values : Values} {state : StateId}
    (h : machine.numbering[values]? = some state) (others : Values) :
    (machine.moveTo others).numbering[values]? = some state := by
  rw [getElem?_numbering_moveTo]
  split
  · rename_i hsame
    subst hsame
    rw [moveTo_of_numbered h]
  · exact h

/-- A machine whose numbering is one to one stands in a numbered state after every move. -/
theorem Numbered.settled_moveTo (h : machine.Numbered) (values : Values) :
    (machine.moveTo values).Settled := by
  refine ⟨⟨?_, ?_⟩, by rw [getElem?_numbering_moveTo, values_moveTo, if_pos rfl]⟩
  · intro others state hstate
    cases hnumbered : machine.numbering[values]? with
    | some known =>
      rw [moveTo_of_numbered hnumbered] at hstate ⊢
      exact h.inRange others state hstate
    | none =>
      have hsize : (machine.moveTo values).statesSeen = machine.statesSeen + 1 := by
        rw [moveTo_of_unnumbered hnumbered]
        simp only [statesSeen, Std.ExtTreeMap.size_insert]
        rw [if_neg]
        simp [Std.ExtTreeMap.contains_eq_isSome_getElem?, hnumbered]
      rw [getElem?_numbering_moveTo, moveTo_of_unnumbered hnumbered] at hstate
      rw [hsize]
      split at hstate
      · rw [← Option.some.inj hstate]
        exact ⟨Nat.succ_pos _, Nat.le_refl _⟩
      · have hbounds := h.inRange others state hstate
        omega
  · intro first second state hfirst hsecond
    have hnumber : ∀ others, machine.numbering[others]? = some (machine.moveTo values).state →
        others = values := by
      intro others hothers
      cases hnumbered : machine.numbering[values]? with
      | some known =>
        rw [moveTo_of_numbered hnumbered] at hothers
        exact h.injective others values known hothers hnumbered
      | none =>
        rw [moveTo_of_unnumbered hnumbered] at hothers
        have hbounds := h.inRange others _ hothers
        simp only at hbounds
        omega
    rw [getElem?_numbering_moveTo] at hfirst hsecond
    split at hfirst <;> split at hsecond
    · rename_i hone htwo
      rw [hone, htwo]
    · rename_i hone _
      rw [hone]
      rw [← Option.some.inj hfirst] at hsecond
      exact (hnumber second hsecond).symm
    · rename_i _ htwo
      rw [htwo]
      rw [← Option.some.inj hsecond] at hfirst
      exact hnumber first hfirst
    · exact h.injective first second state hfirst hsecond

/-- Whether a numbering is one to one depends on the numbers only. -/
theorem Numbered.of_numbering_eq {later : Machine} (h : machine.Numbered)
    (hsame : later.numbering = machine.numbering) : later.Numbered := by
  obtain ⟨hrange, hinjective⟩ := h
  exact ⟨by simpa only [statesSeen, hsame] using hrange, by simpa only [hsame] using hinjective⟩

/-- The machine gives no number when it is asked to return to numbered values only. -/
theorem numbering_foldl_obey {requests : List (HostRequest Values)}
    (h : ∀ values, .restore values ∈ requests →
      ∃ state : StateId, machine.numbering[values]? = some state) :
    (requests.foldl obey machine).numbering = machine.numbering := by
  induction requests generalizing machine with
  | nil => rfl
  | cons request requests ih =>
    have hsame : (machine.obey request).numbering = machine.numbering := by
      cases request with
      | restore values =>
        obtain ⟨state, hstate⟩ := h values List.mem_cons_self
        rw [obey, moveTo_of_numbered hstate]
      | captured | close | offer => rfl
    rw [List.foldl_cons, ih, hsame]
    intro values hrequest
    rw [hsame]
    exact h values (List.mem_cons_of_mem _ hrequest)

/-- A machine starts in a numbered state. -/
theorem settled_start (values : Values) : (start values).Settled := by
  have hempty : (⟨values, ∅, .split, false, ∅, none, ⟨1⟩⟩ : Machine).Numbered :=
    ⟨by simp, by simp⟩
  exact hempty.settled_moveTo values

/-- It holds the values that it starts with. -/
@[simp]
theorem values_start (values : Values) : (start values).values = values :=
  values_moveTo ⟨values, ∅, .split, false, ∅, none, ⟨1⟩⟩ values

/-- No other values are numbered then. -/
theorem mem_numbering_start {values others : Values} :
    others ∈ (start values).numbering ↔ others = values := by
  refine (mem_numbering_moveTo ⟨values, ∅, .split, false, ∅, none, ⟨1⟩⟩).trans ?_
  simp

/-- One state is settled in then. -/
theorem statesSeen_start (values : Values) : (start values).statesSeen = 1 := by
  simp [start, settle, statesSeen, Std.ExtTreeMap.size_insert]

/-- The first state has number 1. -/
theorem state_start (values : Values) : (start values).state = ⟨1⟩ := by
  simp [start, settle, statesSeen]

/-- The machine closes the decision points that it is asked to close. -/
private theorem foldl_close (machine : Machine) (points : List PointId) :
    (points.map HostRequest.close).foldl obey machine =
      { machine with closed := machine.closed.insertMany points } := by
  induction points generalizing machine with
  | nil => simp
  | cons point points ih =>
    rw [List.map_cons, List.foldl_cons, ih]
    simp [obey, Std.ExtTreeSet.insertMany_cons]

/-- A restart brings a settled machine to the state of the snapshot, gives no number, and closes the
points of the execution that ended. -/
theorem Settled.foldl_restart (h : machine.Settled) {values : Values} {state : StateId}
    (hvalues : machine.numbering[values]? = some state) (points : List PointId)
    (schedule : List Event) :
    ∃ isNew,
      (points.map HostRequest.close ++ Explorer.returning machine.view state values ++
          [HostRequest.offer schedule]).foldl obey machine =
        { machine with
          values, state, isNew
          closed := machine.closed.insertMany points
          installed := some schedule } := by
  rw [List.foldl_append, List.foldl_append, foldl_close, Explorer.returning]
  split
  · rename_i hstate
    have hhere := h.here
    rw [show machine.state = state from hstate] at hhere
    have hsame : machine.values = values := h.injective _ _ _ hhere hvalues
    refine ⟨machine.isNew, ?_⟩
    simp [obey, ← hsame, ← show machine.state = state from hstate]
  · refine ⟨false, ?_⟩
    have hnumbered : ({ machine with closed := machine.closed.insertMany points } :
        Machine).numbering[values]? = some state := hvalues
    simp only [List.foldl_cons, List.foldl_nil, obey, moveTo_of_numbered hnumbered]

end EventOrder.Machine
