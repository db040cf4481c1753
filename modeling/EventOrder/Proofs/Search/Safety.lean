import EventOrder.Proofs.Program.Resolution
import EventOrder.Proofs.Search.Paths

/-!
# Validated programs run safely

In every state that a search comes to there is a value for each variable, so the events that it
executes run without a fault when the program is well formed. This holds for reduced and for
exhaustive searches, with any limits, and wherever they stop.
-/

namespace EventOrder.Search

variable {search : Search}

/-- The events that the run of a search executes, each with the values that it starts from and those
that it leads to. -/
inductive Fires (search : Search) : Firing → Values → Values → Prop
  /-- A reduced search executes an event with the values of the machine. -/
  | reduced {later last : Search} {point next : DecisionPoint} {firing : Firing}
      (hmode : search.registerPoint.1.explorer.reducing = true)
      (hreaches : Reaches decide search.registerPoint.1 search.registerPoint.2 later point)
      (hturn : later.decide point = .fired firing last next) :
      Fires search firing later.machine.values last.machine.values
  /-- An exhaustive search executes an event with the values under expansion. -/
  | exhaustive {later last : Search} {frontier next : Frontier} {firing : Firing}
      (hmode : search.registerPoint.1.explorer.reducing = false)
      (hreaches : Reaches expand search.registerPoint.1
        (search.registerPoint.1.outset search.registerPoint.2) later frontier)
      (hturn : later.expand frontier = .fired firing last next) :
      Fires search firing frontier.values last.machine.values

/-- Whatever an exhaustive search comes to, it sweeps there. -/
private theorem Sweeps.of_reaches {frontier rest : Frontier} (h : search.Sweeps frontier)
    {later : Search} (hreaches : Reaches expand search frontier later rest) :
    later.code = search.code ∧ later.Sweeps rest := by
  refine hreaches.keeps (P := fun later rest => later.code = search.code ∧ later.Sweeps rest)
    ⟨rfl, h⟩ fun between here _ hthere => ?_
  obtain ⟨hcode, hsweeps⟩ := hthere
  by_cases hopen : here.events ≠ [] → between.atLimit = false
  · have hturns := hsweeps.turn_of_open hopen
    generalize between.expand here = turn at hturns
    cases hturns with
    | fired _ _ hafter | moved _ _ hafter => exact ⟨hcode, hafter⟩
    | complete => trivial
  · -- as many events were executed as may be
    obtain ⟨hevents, hlimit⟩ := Classical.not_imp.mp hopen
    obtain ⟨event, events, hevents⟩ := List.exists_cons_of_ne_nil hevents
    simp only [expand, hevents, Bool.not_eq_false _ ▸ hlimit, if_true]
    trivial

/-- A search reduces exactly when it is to and there are events to reorder. -/
private theorem reducing_registerPoint_iff {program : Program} {config : ExploreConfig}
    {limit : Nat} (hstart : start program config limit = .ok search) :
    search.registerPoint.1.explorer.reducing = true ↔
      config.stateReduction = true ∧ program.events ≠ [] := by
  constructor
  · intro hreducing
    by_contra hnot
    rw [not_and_or, Bool.not_eq_true, not_not] at hnot
    have hplain := (sweeps_start hstart hnot search.registerPoint.2).reducing
    exact absurd hreducing (by simp [hplain])
  · rintro ⟨hreduce, hevents⟩
    exact (underway_start hstart hreduce hevents).explorer.reducing

/-- A reduced search executes events in reachable states, and their bodies make the new values. -/
private theorem Ready.values_of_fired {waiting taken : List BacktrackPoint}
    {point next : DecisionPoint} (h : search.Ready point waiting taken)
    (hpath : search.adopt.OnPath) {last : Search} {firing : Firing}
    (hturn : search.decide point = .fired firing last next) :
    search.code.Reachable search.machine.values ∧
      last.machine.values = search.code.next firing.event search.machine.values := by
  have hexplores : search.machine.Explores search.code := hpath.explores
  have hturns := h.turn
  rw [hturn] at hturns
  cases hturns with
  | fired => exact ⟨hexplores _ _ h.underway.machine.here, Machine.values_moveTo _ _⟩

/-- So does an exhaustive search. -/
private theorem Sweeps.values_of_fired {frontier next : Frontier} (h : search.Sweeps frontier)
    {last : Search} {firing : Firing} (hturn : search.expand frontier = .fired firing last next) :
    search.code.Reachable frontier.values ∧
      last.machine.values = search.code.next firing.event frontier.values := by
  obtain ⟨state, hstate⟩ := Option.isSome_iff_exists.mp
    (Std.ExtTreeMap.mem_iff_isSome_getElem?.mp h.here)
  have hopen : frontier.events ≠ [] → search.atLimit = false := by
    intro hevents
    obtain ⟨event, events, hevents⟩ := List.exists_cons_of_ne_nil hevents
    rw [← Bool.not_eq_true]
    intro hlimit
    simp [expand, hevents, hlimit] at hturn
  have hturns := h.turn_of_open hopen
  rw [hturn] at hturns
  cases hturns with
  | fired => exact ⟨h.explores _ _ hstate, Machine.values_moveTo _ _⟩

/-- In the run of a program an event is executed with a value for every variable, and its body is
what makes the new values of them. -/
private theorem Fires.of_start {program : Program} {config : ExploreConfig} {limit : Nat}
    (hstart : start program config limit = .ok search) {firing : Firing} {before after : Values}
    (h : search.Fires firing before after) :
    before.length = program.declarations.length ∧
      after = program.code.next firing.event before := by
  have hcode : search.registerPoint.1.code = program.code := by
    obtain ⟨-, rfl⟩ := start_eq_ok_iff.mp hstart
    rfl
  have hreducing := reducing_registerPoint_iff hstart
  cases h with
  | @reduced later last point next firing hmode hreaches hturn =>
    obtain ⟨hreduce, hevents⟩ := hreducing.mp hmode
    have hunderway := underway_start hstart hreduce hevents
    have hpath := onPath_start hstart hreduce hevents
    rw [← hunderway.adopt_eq] at hpath
    obtain ⟨hlater, waiting, taken, hready, honPath⟩ :=
      hunderway.ready.onPath_of_reaches hpath hreaches
    have hfired := hready.values_of_fired honPath hturn
    rw [hlater, hcode] at hfired
    exact ⟨hfired.1.length, hfired.2⟩
  | @exhaustive later last frontier next firing hmode hreaches hturn =>
    have hplain : config.stateReduction = false ∨ program.events = [] := by
      by_contra hnot
      rw [not_or, Bool.not_eq_false] at hnot
      exact absurd (hreducing.mpr hnot) (by simp [hmode])
    obtain ⟨hlater, hsweeps⟩ := (sweeps_start hstart hplain _).of_reaches hreaches
    have hfired := hsweeps.values_of_fired hturn
    rw [hlater, hcode] at hfired
    exact ⟨hfired.1.length, hfired.2⟩

/-- A program that the check accepts is resolved without loss: its instructions name the same
variables, all of which exist, in the same operations. Every increment of it makes the next residue
of any value without leaving the range of 64 bits, and in every run of a search no event that is
executed meets a fault. -/
theorem validated_programs_run_safely {program : Program} (hvalid : program.violation? = none) :
    (program.declarations.map (·.name)).Nodup ∧
      program.code.bodies.map (Instruction.sourceAll? program.declarations) =
        program.events.map (fun event => some event.operations) ∧
      (∀ event, ∀ increment ∈ Instruction.incrementsOfAll (program.code.body event), ∀ value,
        ∃ next, increment? value increment.2 = .ok next ∧
          next.toInt = (value.toInt + 1) % increment.2.toInt ∧
            0 ≤ next.toInt ∧ next.toInt < increment.2.toInt) ∧
      ∀ config limit, ∃ search, start program config limit = .ok search ∧
        ∀ firing before after point, search.Fires firing before after →
          Instruction.performAll? program.declarations point (.event point)
              (program.code.body firing.event) before =
            .ok (after, Instruction.observationsOfAll program.declarations point (.event point)
              (program.code.body firing.event)) := by
  refine ⟨Program.nodup_names hvalid, Program.source_bodies hvalid, ?_, ?_⟩
  · intro event increment hincrement value
    obtain ⟨-, hmodulus⟩ :=
      (Program.sound_body hvalid event).of_increments _ increment hincrement
    have hpositive := Int64.lt_iff_toInt_lt.mp hmodulus
    rw [Int64.toInt_zero] at hpositive
    refine ⟨_, increment?_eq hmodulus value, toInt_nextResidue hmodulus value, ?_⟩
    rw [toInt_nextResidue hmodulus]
    exact ⟨Int.emod_nonneg _ (Int.ne_of_gt hpositive), Int.emod_lt_of_pos _ hpositive⟩
  · intro config limit
    have hstart : start program config limit = .ok (initial program config limit) :=
      start_eq_ok_iff.mpr ⟨hvalid, rfl⟩
    refine ⟨_, hstart, fun firing before after point hfires => ?_⟩
    obtain ⟨hlength, rfl⟩ := hfires.of_start hstart
    have hsound := Program.sound_body hvalid firing.event
    exact Instruction.performAll?_of_sound _ hsound hlength point _

/-- An event that increments the least value by the greatest modulus inside two secondary
decisions, and copies the result. -/
def extremes : Program where
  name := "extremes"
  declarations := [⟨"low", ⟨1⟩, Int64.minValue⟩, ⟨"high", ⟨2⟩, Int64.maxValue⟩]
  events := [⟨"turn", [.nested [.nested [.increment "low" Int64.maxValue], .copy "low" "high"]]⟩]
  filter := .empty

/-- The least value comes to the residue before the greatest, and no search of the program meets a
fault. -/
theorem validated_programs_run_safely_extremes :
    extremes.violation? = none ∧
      (∃ next, increment? Int64.minValue Int64.maxValue = .ok next ∧
        next.toInt = (Int64.minValue.toInt + 1) % Int64.maxValue.toInt) ∧
      ∃ search, start extremes {} 0 = .ok search ∧
        ∀ firing before after point, search.Fires firing before after →
          Instruction.performAll? extremes.declarations point (.event point)
              (extremes.code.body firing.event) before =
            .ok (after, Instruction.observationsOfAll extremes.declarations point (.event point)
              (extremes.code.body firing.event)) := by
  have hvalid : extremes.violation? = none := by decide +kernel
  obtain ⟨-, -, hincrements, hruns⟩ := validated_programs_run_safely hvalid
  have hlisted : (0, Int64.maxValue) ∈
      Instruction.incrementsOfAll (extremes.code.body ⟨0⟩) := by decide +kernel
  obtain ⟨next, hnext, hresidue, -⟩ := hincrements ⟨0⟩ _ hlisted Int64.minValue
  exact ⟨hvalid, ⟨next, hnext, hresidue⟩, hruns {} 0⟩

end EventOrder.Search
