import EventOrder.Proofs.Search.Pauses
import Mathlib.Order.Interval.Finset.Nat

/-!
# States and their values

The explorer knows states by their numbers only, and it returns the machine to a state by a snapshot
taken long before. Both rest on this: at every pause of a search the numbering is one to one between
the values settled in so far and the numbers from 1 on, the machine's state is the number of its
values, and a snapshot kept for a state holds the values of that number.
-/

namespace EventOrder

/-- The number of values; 0, the split state's, for values that were never settled in. -/
def Machine.numberOf (machine : Machine) (values : Values) : Nat :=
  (machine.numbering[values]?.getD .split).number

/-- The numbering is one to one from the values that have a number onto the numbers from 1 on. -/
theorem Machine.Numbered.bijOn {machine : Machine} (h : machine.Numbered) :
    Set.BijOn machine.numberOf {values | values ∈ machine.numbering}
      (Set.Icc 1 machine.statesSeen) := by
  have hnumber {values : Values} (hvalues : values ∈ machine.numbering) :
      ∃ state, machine.numbering[values]? = some state ∧
        machine.numberOf values = state.number := by
    obtain ⟨state, hstate⟩ := Option.isSome_iff_exists.mp
      (Std.ExtTreeMap.mem_iff_isSome_getElem?.mp hvalues)
    exact ⟨state, hstate, by rw [numberOf, hstate, Option.getD_some]⟩
  have hmaps : Set.MapsTo machine.numberOf {values | values ∈ machine.numbering}
      (Set.Icc 1 machine.statesSeen) := by
    intro values hvalues
    obtain ⟨state, hstate, hsame⟩ := hnumber hvalues
    rw [hsame]
    exact h.inRange values state hstate
  have hinjective : Set.InjOn machine.numberOf {values | values ∈ machine.numbering} := by
    intro values hvalues others hothers heq
    obtain ⟨state, hstate, hsame⟩ := hnumber hvalues
    obtain ⟨other, hother, hothersSame⟩ := hnumber hothers
    have hstates : state = other := by
      cases state
      cases other
      exact congrArg StateId.mk (hsame.symm.trans (heq.trans hothersSame))
    exact h.injective values others state hstate (hstates ▸ hother)
  refine ⟨hmaps, hinjective, ?_⟩
  -- There are as many values with a number as numbers, so none is left out.
  have hcount : (machine.numberOf '' {values | values ∈ machine.numbering}).ncard =
      (Set.Icc 1 machine.statesSeen).ncard := by
    rw [hinjective.ncard_image, machine.ncard_numbering, Set.ncard_eq_toFinset_card']
    simp
  exact (Set.eq_of_subset_of_ncard_le hmaps.image_subset hcount.ge).ge

/-- An event leads from reachable values to reachable ones, also if the program has no such
event. -/
theorem Code.Reachable.next {code : Code} {values : Values} (h : code.Reachable values)
    (event : Event) : code.Reachable (code.next event values) := by
  by_cases hevent : event ∈ code.events
  · exact h.step hevent
  · have hnone : code.bodies[event.number]? = none := by
      rw [List.getElem?_eq_none_iff]
      by_contra hlt
      exact hevent (List.mem_map.mpr ⟨event.number, List.mem_range.mpr (by omega), rfl⟩)
    have hsame : code.next event values = values := by
      simp [Code.next, Code.body, hnone, Instruction.effectOfAll]
    rwa [hsame]

namespace Pause

variable {pause later last : Pause} {pauses : List Pause}

/-- What holds at every pause. -/
structure Sound (pause : Pause) : Prop where
  /-- The machine stands in the state numbered for its values. -/
  settled : pause.search.machine.Settled
  /-- Only reachable values are numbered. -/
  explores : pause.search.machine.Explores pause.search.code
  /-- The values settled in are those with a number. -/
  mem_settled : ∀ values, values ∈ pause.settled ↔ values ∈ pause.search.machine.numbering
  /-- The machine settled last in its values, and its state is new if it never had before. -/
  last : ∃ earlier, pause.settled = pause.search.machine.values :: earlier ∧
    (pause.search.machine.isNew = true ↔ pause.search.machine.values ∉ earlier)
  /-- A snapshot kept for a state holds the values numbered for it. -/
  numbered_of_snapshot : ∀ (state : StateId) (values : Values),
    pause.search.explorer.snapshots[state]? = some values →
      pause.search.machine.numbering[values]? = some state

/-- Values that the machine can settle in are reachable. -/
theorem Sound.reachable_of_leads (h : pause.Sound) {values : Values} (hleads : pause.Leads values) :
    pause.search.code.Reachable values := by
  cases hleads with
  | again hvalues =>
    obtain ⟨state, hstate⟩ := Option.isSome_iff_exists.mp
      (Std.ExtTreeMap.mem_iff_isSome_getElem?.mp ((h.mem_settled values).mp hvalues))
    exact h.explores values state hstate
  | kept hkept => exact h.explores values _ (h.numbered_of_snapshot _ values hkept)
  | event event => exact (h.explores _ _ h.settled.here).next event

/-- What follows a sound pause is sound. -/
theorem Follows.sound (h : pause.Follows later) (hsound : pause.Sound) : later.Sound := by
  cases h with
  | @stays search hcode hmachine hsnapshots =>
    obtain ⟨closed, installed, nextPoint, hmachine⟩ := hmachine
    have hsettled := hsound.settled
    refine ⟨?_, ?_, ?_, ?_, fun state values hkept => ?_⟩
    · change search.machine.Settled
      rw [hmachine]
      exact ⟨⟨hsettled.inRange, hsettled.injective⟩, hsettled.here⟩
    · change search.machine.Explores search.code
      rw [hmachine, hcode]
      exact hsound.explores
    · change ∀ values, values ∈ pause.settled ↔ values ∈ search.machine.numbering
      rw [hmachine]
      exact hsound.mem_settled
    · change ∃ earlier, pause.settled = search.machine.values :: earlier ∧
        (search.machine.isNew = true ↔ search.machine.values ∉ earlier)
      rw [hmachine]
      exact hsound.last
    · change search.machine.numbering[values]? = some state
      rw [hmachine]
      rcases hsnapshots state values hkept with hbefore | ⟨rfl, rfl⟩
      · exact hsound.numbered_of_snapshot state values hbefore
      · exact hsettled.here
  | @settles search values hvalues hcode hmachine hsnapshots =>
    have hmoved : search.machine.values = values := by rw [hmachine, Machine.values_moveTo]
    refine ⟨?_, ?_, fun others => ?_, ⟨pause.settled, rfl, ?_⟩, fun state others hkept => ?_⟩
    · change search.machine.Settled
      rw [hmachine]
      exact hsound.settled.settled_moveTo values
    · change search.machine.Explores search.code
      rw [hmachine, hcode]
      exact hsound.explores.moveTo (hsound.reachable_of_leads hvalues)
    · change others ∈ search.machine.values :: pause.settled ↔ others ∈ search.machine.numbering
      rw [hmoved, hmachine, Machine.mem_numbering_moveTo, List.mem_cons, hsound.mem_settled]
    · change search.machine.isNew = true ↔ search.machine.values ∉ pause.settled
      rw [hmoved, hmachine, Machine.isNew_moveTo_iff_notMem, hsound.mem_settled]
    · change search.explorer.snapshots[state]? = some others at hkept
      change search.machine.numbering[others]? = some state
      rw [hsnapshots] at hkept
      rw [hmachine]
      exact Machine.numbering_moveTo (hsound.numbered_of_snapshot state others hkept) values

/-- No number is taken back from one pause to the next, and the program stays the same. -/
theorem Follows.keeps (h : pause.Follows later) :
    pause.search.machine.Keeps later.search.machine ∧ later.search.code = pause.search.code := by
  cases h with
  | @stays search hcode hmachine _ =>
    obtain ⟨closed, installed, nextPoint, hmachine⟩ := hmachine
    refine ⟨fun values state hnumber => ?_, hcode⟩
    change search.machine.numbering[values]? = some state
    rw [hmachine]
    exact hnumber
  | @settles search values _ hcode hmachine _ =>
    refine ⟨fun others state hnumber => ?_, hcode⟩
    change search.machine.numbering[others]? = some state
    rw [hmachine]
    exact Machine.numbering_moveTo hnumber values

/-- Every pause of a course from a sound one is sound, and keeps the numbers and the program. -/
theorem Course.sound (h : Course pause pauses last) (hsound : pause.Sound) :
    ∀ later ∈ pauses, later.Sound ∧ pause.search.machine.Keeps later.search.machine ∧
      later.search.code = pause.search.code := by
  induction h with
  | here => exact fun _ hlater => absurd hlater List.not_mem_nil
  | @step pause next last pauses hfollows _ ih =>
    intro later hlater
    obtain ⟨hkeeps, hcode⟩ := hfollows.keeps
    rcases List.mem_cons.mp hlater with rfl | hlater
    · exact ⟨hfollows.sound hsound, hkeeps, hcode⟩
    · obtain ⟨hlaterSound, hthen, hsame⟩ := ih (hfollows.sound hsound) later hlater
      exact ⟨hlaterSound, fun values state hnumber =>
        hthen values state (hkeeps values state hnumber), hsame.trans hcode⟩

/-- No pause of a course takes a number back that an earlier one has given. -/
theorem Course.pairwise_keeps (h : Course pause pauses last) (hsound : pause.Sound) :
    (pause :: pauses).Pairwise fun earlier later =>
      earlier.search.machine.Keeps later.search.machine := by
  induction h with
  | here => exact List.pairwise_singleton _ _
  | @step pause next last pauses hfollows hrest ih =>
    refine List.pairwise_cons.mpr ⟨fun later hlater => ?_, ih (hfollows.sound hsound)⟩
    exact ((Course.step hfollows hrest).sound hsound later hlater).2.1

/-- A search of a program starts from a sound pause. -/
theorem sound_start {program : Program} {config : ExploreConfig} {limit : Nat} {search : Search}
    (hstart : Search.start program config limit = .ok search) :
    Sound ⟨search, [search.machine.values]⟩ := by
  obtain ⟨-, rfl⟩ := Search.start_eq_ok_iff.mp hstart
  have hvalues : (Machine.start program.code.initial).values = program.code.initial :=
    Machine.values_start _
  refine ⟨Machine.settled_start _, Machine.explores_start _, fun values => ?_, ⟨[], rfl, ?_⟩,
    fun state values hkept => ?_⟩
  · change values ∈ [(Machine.start program.code.initial).values] ↔
      values ∈ (Machine.start program.code.initial).numbering
    rw [hvalues, List.mem_singleton, Machine.mem_numbering_start]
  · have hnew : (Machine.start program.code.initial).isNew = true := by
      rw [Machine.start, Machine.settle]
      simp
    simp [Search.initial, hnew]
  · exact absurd hkept (by simp [Search.initial, Explorer.start])

/-- How states and values correspond at a pause. -/
structure Interned (pause : Pause) : Prop where
  /-- The numbers from 1 on belong one to one to the values settled in so far. -/
  bijOn : Set.BijOn pause.search.machine.numberOf {values | values ∈ pause.settled}
    (Set.Icc 1 pause.search.machine.statesSeen)
  /-- No other values have a number. -/
  mem_settled : ∀ values, values ∈ pause.search.machine.numbering ↔ values ∈ pause.settled
  /-- The state is the number of the values that the machine holds. -/
  here : pause.search.machine.numbering[pause.search.machine.values]? =
    some pause.search.machine.state
  /-- The machine settled last in these values, and the state is new just when it never had
  before. -/
  isNew : ∃ earlier, pause.settled = pause.search.machine.values :: earlier ∧
    (pause.search.machine.isNew = true ↔ pause.search.machine.values ∉ earlier)
  /-- A snapshot kept for a state holds the values of its number, and to restore it brings the
  machine to that state with these values. -/
  restores : ∀ (state : StateId) (values : Values),
    pause.search.explorer.snapshots[state]? = some values →
      pause.search.machine.numbering[values]? = some state ∧
        pause.search.machine.obey (.restore values) =
          { pause.search.machine with values, state, isNew := false }
  /-- If the program has few enough values, the next number fits into 32 bits. -/
  fits : pause.search.code.reachable.ncard < 2 ^ 32 - 1 →
    (UInt32.ofNat (pause.search.machine.statesSeen + 1)).toNat =
      pause.search.machine.statesSeen + 1

/-- At a sound pause the numbers belong one to one to the values. -/
theorem Sound.interned (h : pause.Sound) : pause.Interned where
  bijOn := by
    have hsame : {values | values ∈ pause.settled} =
        {values | values ∈ pause.search.machine.numbering} :=
      Set.ext h.mem_settled
    rw [hsame]
    exact h.settled.toNumbered.bijOn
  mem_settled values := (h.mem_settled values).symm
  here := h.settled.here
  isNew := h.last
  restores state values hkept :=
    have hnumbered := h.numbered_of_snapshot state values hkept
    ⟨hnumbered, Machine.moveTo_of_numbered hnumbered⟩
  fits hfew := by
    have hseen := h.explores.statesSeen_le
    rw [UInt32.toNat_ofNat']
    exact Nat.mod_eq_of_lt (by omega)

end Pause

namespace Search

/-- Whatever well-formed program is searched, reduced or exhaustively, at every pause from the start
to the end of the search the numbers from 1 on belong one to one to the values settled in so far,
the machine's state is the number of its values, it is new just when the machine never settled in
them before, and every snapshot kept for a state restores that state with the values of its number.
No number is ever taken back or given to other values. -/
theorem pauses_interned {program : Program} {config : ExploreConfig} {limit : Nat} {search : Search}
    (hstart : start program config limit = .ok search) :
    (∀ pause ∈ search.pauses, pause.Interned ∧ pause.search.code = program.code) ∧
      search.pauses.Pairwise (fun earlier later =>
        earlier.search.machine.Keeps later.search.machine) ∧
      search.pauses.head?.map (·.search) = some search ∧
      search.pauses.getLast?.map (·.search) = some search.explore.1 := by
  have hsound := Pause.sound_start hstart
  have hcode : search.code = program.code := by
    obtain ⟨-, rfl⟩ := start_eq_ok_iff.mp hstart
    rfl
  obtain ⟨rest, last, hpauses, hcourse, hlast⟩ := search.course_pauses
  rw [hpauses]
  refine ⟨fun pause hpause => ?_, hcourse.pairwise_keeps hsound, rfl, ?_⟩
  · rcases List.mem_cons.mp hpause with rfl | hpause
    · exact ⟨hsound.interned, hcode⟩
    · obtain ⟨hlater, -, hsame⟩ := hcourse.sound hsound pause hpause
      exact ⟨hlater.interned, hsame.trans hcode⟩
  · rw [List.getLast?_cons, ← List.getLastD_eq_getLast?, hcourse.getLastD_eq, Option.map_some,
      hlast]

/-- So it is for two events that write one variable. -/
theorem pauses_interned_twoWriters :
    ∃ search, start twoWriters {} 0 = .ok search ∧
      (∀ pause ∈ search.pauses, pause.Interned ∧ pause.search.code = twoWriters.code) ∧
      search.pauses.Pairwise (fun earlier later =>
        earlier.search.machine.Keeps later.search.machine) ∧
      search.pauses.head?.map (·.search) = some search ∧
      search.pauses.getLast?.map (·.search) = some search.explore.1 := by
  have hstart : start twoWriters {} 0 = .ok (initial twoWriters {} 0) :=
    start_eq_ok_iff.mpr ⟨by decide +kernel, rfl⟩
  exact ⟨_, hstart, pauses_interned hstart⟩

/-- The values that the exhaustive search of these events settles in, first ones first. -/
example : (initial twoWriters { stateReduction := false } 0).pauses.getLast?.map
    (·.settled.reverse) =
      some [[0], [0], [0], [1], [0], [2], [2], [2], [1], [2], [2], [1], [1], [1], [1], [2]] := by
  decide +kernel

end Search

end EventOrder
