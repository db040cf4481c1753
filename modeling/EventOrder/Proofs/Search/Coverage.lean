import EventOrder.Proofs.Machine.Locality
import EventOrder.Proofs.Search.Expansion
import EventOrder.Proofs.Search.Service

/-!
# What the reduced search covers

The reduced search comes to no value of a variable that the exhaustive one does not come to. It
comes to all of them if in each state in which it executes an event it also executes the events that
depend on it: the order of any events that are linked by dependence can then be followed through the
states that it has numbered, with only events in between that leave their variables alone. The state
that an execution starts in is not counted as entered, and a return to it can keep a dependent event
from being executed.
-/

namespace EventOrder

/-- A state was settled in that holds the value in the variable at a position. -/
def Machine.Holds (machine : Machine) (slot : Nat) (value : Int64) : Prop :=
  ∃ values ∈ machine.numbering.keys, values[slot]? = some value

instance (machine : Machine) (slot : Nat) (value : Int64) : Decidable (machine.Holds slot value) :=
  inferInstanceAs (Decidable (∃ values ∈ machine.numbering.keys, values[slot]? = some value))

namespace Search

/-- In each state in which the search executes an event it executes all events dependent on it. -/
def FollowsDependence (search : Search) (program : Program) : Prop :=
  ∀ firing ∈ search.executions.map Prod.snd, ∀ event, program.Dependent firing.event event →
    ⟨firing.state, event⟩ ∈ search.executions.map Prod.snd

variable {search : Search} {program : Program} {fires : Values → Event → Prop}
  {event first second : Event} {values : Values}

/-- Where dependent events are executed, linked ones are. -/
private theorem fires_of_linked
    (hdependent : ∀ values first second, fires values first → program.Dependent first second →
      fires values second)
    (hlinked : program.Linked first second) (hfires : fires values first) :
    fires values second := by
  induction hlinked with
  | refl => exact hfires
  | tail _ hstep ih => exact hdependent _ _ _ ih hstep

/-- A linked event that is served is executed in a state that agrees. -/
private theorem exists_agree_of_served
    (hdependent : ∀ values first second, fires values first → program.Dependent first second →
      fires values second)
    (hlinked : program.Linked event second) (hserved : Served program.code fires values second) :
    ∃ later, Leads program.code fires values later ∧ fires later second ∧
      program.Agree event later values := by
  obtain ⟨last, hleads, hfires⟩ := hserved
  induction hleads using Relation.ReflTransGen.head_induction_on with
  | refl => exact ⟨last, Relation.ReflTransGen.refl, hfires, fun _ _ => rfl⟩
  | head hstep hrest ih =>
    obtain ⟨first, hfirst, rfl⟩ := hstep
    by_cases hhere : program.Linked event first
    · have hsecond := fires_of_linked hdependent (hhere.symm.trans hlinked) hfirst
      exact ⟨_, Relation.ReflTransGen.refl, hsecond, fun _ _ => rfl⟩
    · obtain ⟨later, hleads, hlater, hagree⟩ := ih
      refine ⟨later, Relation.ReflTransGen.head ⟨first, hfirst, rfl⟩ hleads, hlater, ?_⟩
      intro slot hslot
      rw [hagree slot hslot, Program.agree_next_of_not_linked hhere _ slot hslot]

/-- If dependent events are executed where one of them is, each reachable state agrees with a state
numbered. -/
private theorem exists_agree_of_reachable {numbered : Values → Prop}
    (hdependent : ∀ values first second, fires values first → program.Dependent first second →
      fires values second)
    (hinitial : numbered program.code.initial)
    (hnext : ∀ values event, fires values event → numbered (program.code.next event values))
    (hserved : ∀ values, numbered values → ∀ event ∈ program.code.events,
      Served program.code fires values event)
    (hreachable : program.code.Reachable values) (event : Event) :
    ∃ others, numbered others ∧ program.Agree event others values := by
  induction hreachable with
  | initial => exact ⟨_, hinitial, fun _ _ => rfl⟩
  | @step values second _ hsecond ih =>
    obtain ⟨others, hothers, hagree⟩ := ih
    by_cases hlinked : program.Linked event second
    · obtain ⟨later, -, hfires, hsame⟩ :=
        exists_agree_of_served hdependent hlinked (hserved others hothers second hsecond)
      have hlater : program.Agree event later values :=
        fun slot hslot => (hsame slot hslot).trans (hagree slot hslot)
      exact ⟨_, hnext later second hfires, hlater.next hlinked⟩
    · refine ⟨others, hothers, fun slot hslot => ?_⟩
      rw [hagree slot hslot, Program.agree_next_of_not_linked hlinked _ slot hslot]

/-- The events executed by a search that left `final` behind, by the values that make the state. -/
def FiresIn (search final : Search) (values : Values) (event : Event) : Prop :=
  ∃ state, final.machine.numbering[values]? = some state ∧
    ⟨state, event⟩ ∈ search.executions.map Prod.snd

/-- The reduced search of a program completes and has then served every event. It has numbered the
initial state and whatever the events executed lead to. -/
private theorem surveys_of_explore {config : ExploreConfig}
    (hstart : start program config 0 = .ok search) (hreduce : config.stateReduction = true)
    (hevents : program.events ≠ []) (hdepth : config.maxDepth = 0) :
    ∃ final, search.explore = (final, .ok .complete) ∧
      final.Surveys program.code (search.FiresIn final) ∧
      program.code.initial ∈ final.machine.numbering ∧
      ∀ values event, search.FiresIn final values event →
        program.code.next event values ∈ final.machine.numbering := by
  have hunderway := underway_start hstart hreduce hevents
  have hready := hunderway.ready
  obtain ⟨final, hcomplete, -⟩ := explore_completes hstart hreduce hevents
  have haccounted := accounted_start hstart hreduce hevents
  have hserves : search.registerPoint.1.Serves (search.FiresIn final) :=
    serves_start hstart hreduce hevents hdepth
  rw [← hunderway.adopt_eq] at haccounted hserves
  have hrun := hcomplete
  rw [explore_eq hstart hreduce hevents] at hrun
  have hcode : search.registerPoint.1.code = program.code := by
    obtain ⟨-, rfl⟩ := start_eq_ok_iff.mp hstart
    rfl
  have hsurveys := hready.surveys haccounted hserves hrun fun execution firing hfired values
    hvalues => ⟨firing.state, hvalues, List.mem_map_of_mem (f := Prod.snd) hfired⟩
  rw [hcode] at hsurveys
  refine ⟨final, hcomplete, hsurveys, ?_, ?_⟩
  · have hvalues : search.registerPoint.1.machine.values = program.code.initial := by
      rw [registerPoint_start hstart hreduce hevents]
      exact Machine.values_start _
    have hhere := hready.numbering_takeTurns hrun hunderway.machine.here
    rw [hvalues] at hhere
    exact Std.ExtTreeMap.mem_iff_isSome_getElem?.mpr (Option.isSome_of_eq_some hhere)
  · rintro values event ⟨state, hvalues, hexecuted⟩
    obtain ⟨⟨execution, firing⟩, hfired, hfiring⟩ := List.mem_map.mp hexecuted
    obtain ⟨others, hothers, hnext⟩ := hready.numbered_of_fired hrun hfired
    obtain rfl : firing = ⟨state, event⟩ := hfiring
    rw [hcode] at hnext
    rwa [hsurveys.machine.injective values others state hvalues hothers]

/-- The reduced and the exhaustive search of a program, with no limits, both complete. -/
theorem values_covered {config exhaustive : ExploreConfig} {other : Search}
    (hstart : start program config 0 = .ok search) (hreduce : config.stateReduction = true)
    (hdepth : config.maxDepth = 0) (hother : start program exhaustive 0 = .ok other)
    (hexhaustive : exhaustive.stateReduction = false) (hevents : program.events ≠ []) :
    ∃ final whole, search.explore = (final, .ok .complete) ∧
      other.explore = (whole, .ok .complete) ∧
      (∀ slot value, final.machine.Holds slot value → whole.machine.Holds slot value) ∧
      (search.FollowsDependence program →
        ∀ slot value, whole.machine.Holds slot value ↔ final.machine.Holds slot value) := by
  obtain ⟨final, hcomplete, hsurveys, hinitial, hnext⟩ :=
    surveys_of_explore hstart hreduce hevents hdepth
  obtain ⟨whole, hwhole, hreachable⟩ := exhaustive_numbers_reachable hother hexhaustive
  have hsound (slot : Nat) (value : Int64) (hholds : final.machine.Holds slot value) :
      whole.machine.Holds slot value := by
    obtain ⟨values, hvalues, hvalue⟩ := hholds
    obtain ⟨state, hstate⟩ := Option.isSome_iff_exists.mp
      (Std.ExtTreeMap.mem_iff_isSome_getElem?.mp (Std.ExtTreeMap.mem_keys.mp hvalues))
    have hmem := (hreachable values).mpr (hsurveys.explores values state hstate)
    exact ⟨values, Std.ExtTreeMap.mem_keys.mpr hmem, hvalue⟩
  refine ⟨final, whole, hcomplete, hwhole, hsound, fun hfollows slot value =>
    ⟨fun hholds => ?_, hsound slot value⟩⟩
  obtain ⟨values, hvalues, hvalue⟩ := hholds
  have hdependent (values : Values) (first second : Event)
      (hfires : search.FiresIn final values first) (hdependent : program.Dependent first second) :
      search.FiresIn final values second := by
    obtain ⟨state, hstate, hexecuted⟩ := hfires
    exact ⟨state, hstate, hfollows _ hexecuted second hdependent⟩
  have hserved (values : Values) (hvalues : values ∈ final.machine.numbering) :
      ∀ event ∈ program.code.events,
        Served program.code (search.FiresIn final) values event := by
    obtain ⟨state, hstate⟩ := Option.isSome_iff_exists.mp
      (Std.ExtTreeMap.mem_iff_isSome_getElem?.mp hvalues)
    exact hsurveys.served values state hstate
  obtain ⟨event, hgoverns⟩ := program.exists_governs slot
  obtain ⟨others, hothers, hagree⟩ := exists_agree_of_reachable hdependent hinitial hnext hserved
    ((hreachable values).mp (Std.ExtTreeMap.mem_keys.mp hvalues)) event
  exact ⟨others, Std.ExtTreeMap.mem_keys.mpr hothers, (hagree slot hgoverns).trans hvalue⟩

/-- Two events that write one variable are both executed in all three states, so the search of them
comes to the values of either. -/
theorem values_covered_twoWriters :
    ∃ search other final whole, start twoWriters {} 0 = .ok search ∧
      start twoWriters { stateReduction := false } 0 = .ok other ∧
        search.explore = (final, .ok .complete) ∧ other.explore = (whole, .ok .complete) ∧
          ∀ value, whole.machine.Holds 0 value ↔ final.machine.Holds 0 value := by
  have hstart : start twoWriters {} 0 = .ok (initial twoWriters {} 0) :=
    start_eq_ok_iff.mpr ⟨by decide +kernel, rfl⟩
  have hother : start twoWriters { stateReduction := false } 0 =
      .ok (initial twoWriters { stateReduction := false } 0) :=
    start_eq_ok_iff.mpr ⟨by decide +kernel, rfl⟩
  have hfollows : (initial twoWriters {} 0).FollowsDependence twoWriters := by
    have hall : ∀ firing ∈ (initial twoWriters {} 0).executions.map Prod.snd,
        ∀ number : Fin 2, ⟨firing.state, ⟨number⟩⟩ ∈
          (initial twoWriters {} 0).executions.map Prod.snd := by
      decide +kernel
    intro firing hfiring event hdependent
    exact hall firing hfiring ⟨event.number, hdependent.lt_length.2⟩
  obtain ⟨final, whole, hfinal, hwhole, -, hcovered⟩ :=
    values_covered hstart rfl rfl hother rfl (by decide)
  exact ⟨_, _, final, whole, hstart, hother, hfinal, hwhole, hcovered hfollows 0⟩

/-- An event that moves a variable on to the next residue of 3, and one that sets it back to 1. -/
def tickAndReset : Program where
  name := "tick and reset"
  declarations := [⟨"x", ⟨1⟩, 1⟩]
  events := [⟨"tick", [.increment "x" 3]⟩, ⟨"reset", [.write "x" 1]⟩]
  filter := .empty

/-- Two ticks bring the variable from 1 to 0. The reduced search executes no tick in the state that
it comes to with the first one, and misses the value. -/
theorem value_missed_tickAndReset :
    ∃ search other final whole, start tickAndReset {} 0 = .ok search ∧
      start tickAndReset { stateReduction := false } 0 = .ok other ∧
        search.explore = (final, .ok .complete) ∧ other.explore = (whole, .ok .complete) ∧
          whole.machine.Holds 0 0 ∧ ¬final.machine.Holds 0 0 := by
  have hstart : start tickAndReset {} 0 = .ok (initial tickAndReset {} 0) :=
    start_eq_ok_iff.mpr ⟨by decide +kernel, rfl⟩
  have hother : start tickAndReset { stateReduction := false } 0 =
      .ok (initial tickAndReset { stateReduction := false } 0) :=
    start_eq_ok_iff.mpr ⟨by decide +kernel, rfl⟩
  have hmissed : ¬(initial tickAndReset {} 0).explore.1.machine.Holds 0 0 := by
    decide +kernel
  have htwice : tickAndReset.code.next ⟨0⟩ (tickAndReset.code.next ⟨0⟩ tickAndReset.code.initial) =
      [0] := by
    decide +kernel
  have htick : (⟨0⟩ : Event) ∈ tickAndReset.code.events := by decide +kernel
  obtain ⟨final, hfinal, -⟩ := explore_completes hstart rfl (by decide)
  obtain ⟨whole, hwhole, hnumbered⟩ := exhaustive_numbers_reachable hother rfl
  rw [hfinal] at hmissed
  refine ⟨_, _, final, whole, hstart, hother, hfinal, hwhole, ⟨[0], ?_, rfl⟩, hmissed⟩
  rw [Std.ExtTreeMap.mem_keys, hnumbered, ← htwice]
  exact (Code.Reachable.initial.step htick).step htick

end Search

end EventOrder
