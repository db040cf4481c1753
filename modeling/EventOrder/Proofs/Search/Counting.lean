import EventOrder.Proofs.Explorer.Counting
import EventOrder.Proofs.Search.Exhaustion
import EventOrder.Proofs.Search.Termination
import Mathlib.Data.List.Dedup

/-!
# What a search counts

A search counts the events that it executes, and its explorer counts the transitions. Both loops
keep the two counts in step, whether or not the number of events is limited. A reduced search tracks
besides which event was executed in which state.
-/

namespace EventOrder

namespace Statistics

/-- The counts once events were tracked one after the other. -/
def recordAll (statistics : Statistics) (firings : List Firing) : Statistics :=
  firings.foldl record statistics

/-- Each event adds one to the transitions. -/
theorem transitions_recordAll (statistics : Statistics) (firings : List Firing) :
    (statistics.recordAll firings).transitions = statistics.transitions + firings.length := by
  induction firings generalizing statistics with
  | nil => rfl
  | cons firing firings ih =>
    rw [recordAll, List.foldl_cons, ← recordAll, ih, List.length_cons]
    simp only [record]
    omega

/-- What is tracked afterwards was tracked before, or is one of the events. -/
theorem mem_distinct_recordAll {statistics : Statistics} {firings : List Firing}
    {firing : Firing} :
    firing ∈ (statistics.recordAll firings).distinct ↔
      firing ∈ firings ∨ firing ∈ statistics.distinct := by
  induction firings generalizing statistics with
  | nil => simp [recordAll]
  | cons first firings ih =>
    rw [recordAll, List.foldl_cons, ← recordAll, ih, record, Std.ExtTreeSet.mem_insert,
      Std.compare_eq_iff_eq, List.mem_cons, @eq_comm _ first]
    tauto

/-- So each event counts once per state, when nothing was tracked before. -/
theorem uniqueTransitions_recordAll (firings : List Firing) :
    (empty.recordAll firings).uniqueTransitions = firings.dedup.length := by
  have hdistinct : (empty.recordAll firings).distinct.toList.Nodup := by
    refine Std.ExtTreeSet.distinct_toList.imp fun hdifferent hsame => ?_
    exact hdifferent (Std.compare_eq_iff_eq.mpr hsame)
  rw [uniqueTransitions, ← Std.ExtTreeSet.length_toList]
  refine ((List.perm_ext_iff_of_nodup hdistinct firings.nodup_dedup).mpr fun firing => ?_).length_eq
  rw [Std.ExtTreeSet.mem_toList, mem_distinct_recordAll, List.mem_dedup]
  simp [empty]

end Statistics

namespace Search

/-- Whether the search of a program is reduced: that is asked for, and there are events to
reorder. -/
def isReduced (program : Program) (config : ExploreConfig) : Bool :=
  config.stateReduction && !program.events.isEmpty

/-- A search has something to reduce when it is asked for and there are events. -/
theorem isReduced_iff {program : Program} {config : ExploreConfig} :
    isReduced program config = true ↔ config.stateReduction = true ∧ program.events ≠ [] := by
  simp [isReduced]

/-- Else it has not. -/
theorem isReduced_eq_false_iff {program : Program} {config : ExploreConfig} :
    isReduced program config = false ↔ config.stateReduction = false ∨ program.events = [] := by
  cases hreduce : config.stateReduction <;> simp [isReduced, hreduce]

/-- The events that the search of a program executes, each with its state. -/
def fired (search : Search) : List Firing :=
  if search.registerPoint.1.explorer.reducing then search.executions.map Prod.snd
  else search.expansions

variable {search : Search} {point : DecisionPoint} {waiting taken : List BacktrackPoint}

/-- A decision that does not go ahead is not counted, whether the explorer took it or the host ended
the path. -/
theorem consult_same (hreducing : search.explorer.reducing = true)
    (houtcome : (search.consult point).outcome ≠ .ok .proceed) :
    (search.consult point).explorer.config = search.explorer.config ∧
      (search.consult point).explorer.statistics = search.explorer.statistics := by
  unfold consult at houtcome ⊢
  split
  · exact search.explorer.pathMatched_same _ _
  · rename_i hmatches
    have hadopted := search.explorer.adoptPending_same
    have hreduces : ¬(!search.explorer.reducing) = true := by simp [hreducing]
    rw [if_neg hmatches] at houtcome
    simp only [Explorer.choiceAdvanced, if_neg hreduces] at houtcome ⊢
    split
    · exact hadopted
    · rename_i due hdue
      simp only [hdue] at houtcome
      obtain ⟨hconfig, hstatistics⟩ := search.explorer.adoptPending.decide_counts
        search.machine.view (point.advance.2.force due) due
      rw [Statistics.conclude_of_ne_proceed houtcome] at hstatistics
      exact ⟨hconfig.trans hadopted.1, hstatistics.trans hadopted.2⟩

/-- The turn that ends a reduced search counts nothing. -/
theorem Ready.same_of_ended (h : search.Ready point waiting taken) {last : Search}
    {outcome : Except ExplorationError Outcome}
    (hended : search.decide point = .ended last outcome) :
    last.explorer.config = search.explorer.config ∧
      last.explorer.statistics = search.explorer.statistics := by
  have hreducing : search.explorer.reducing = true := by
    have hadopted := h.underway.explorer.reducing
    unfold adopt Explorer.adoptPending at hadopted
    split at hadopted <;> exact hadopted
  have hopen : (search.machine.closed.contains point.id || !point.hasMore) = false :=
    h.underway.isOpen
  simp only [decide, hopen, Bool.false_eq_true, if_false] at hended
  split at hended
  · obtain ⟨rfl, -⟩ := Turn.ended.inj hended
    exact ⟨rfl, rfl⟩
  · split at hended
    · rename_i error houtcome
      obtain ⟨rfl, -⟩ := Turn.ended.inj hended
      exact consult_same hreducing (by simp [houtcome])
    · rename_i houtcome
      obtain ⟨rfl, -⟩ := Turn.ended.inj hended
      exact consult_same hreducing (by simp [houtcome])
    · exact absurd hended (by simp [restart])
    · rename_i houtcome
      rw [← h.consult_adopt] at houtcome hended
      obtain ⟨due, -, hcurrent⟩ := h.underway.current_of_proceed houtcome
      exact absurd hended (by simp [fire, hcurrent])

/-- A reduced search tracks just the events that it executes, each in its state. -/
theorem Ready.counts (h : search.Ready point waiting taken) (turns : Nat) :
    (search.takeTurns decide turns point).1.explorer.config = search.explorer.config ∧
      (search.takeTurns decide turns point).1.explorer.statistics =
        search.explorer.statistics.recordAll
          ((firings decide turns search point).map Prod.snd) := by
  induction turns generalizing search point waiting taken with
  | zero => exact ⟨rfl, rfl⟩
  | succ turns ih =>
    have hunderway := h.underway
    have hturn := h.turn
    have hended {last : Search} {outcome : Except ExplorationError Outcome}
        (hends : search.decide point = .ended last outcome) :=
      h.same_of_ended hends
    have hadopted : search.adopt.explorer.config = search.explorer.config ∧
        search.adopt.explorer.statistics = search.explorer.statistics :=
      search.explorer.adoptPending_same
    simp only [takeTurns, firings]
    generalize search.decide point = turn at hturn hended
    cases hturn with
    | @fired due hdue hat hrecorded hweighs hnew next more hafter =>
      obtain ⟨decisions, -, -, hlater⟩ := (hunderway.weighed hdue hweighs).underway
      obtain ⟨filter, log, predecessors, heq, -⟩ :=
        search.adopt.advanced_explorer point due hlater.reducing
      have hcounted : (search.adopt.advanced point due).explorer.config =
            search.explorer.config ∧
          (search.adopt.advanced point due).explorer.statistics =
            search.explorer.statistics.record ⟨search.adopt.machine.state, due⟩ := by
        rw [heq, ← hadopted.1, ← hadopted.2, ← hweighs.same.1, ← hweighs.same.2]
        exact ⟨rfl, rfl⟩
      obtain ⟨hconfig, hstatistics⟩ := ih hafter.ready
      rw [hcounted.1] at hconfig
      rw [hcounted.2] at hstatistics
      exact ⟨hconfig, hstatistics⟩
    | @moved due hdue hat hweighs hover popped rest hpop hschedule values isNew closed next
        remaining hafter later hadopt hready =>
      have hlater : later.adopt.explorer.config = later.explorer.config ∧
          later.adopt.explorer.statistics = later.explorer.statistics :=
        later.explorer.adoptPending_same
      have hcounted : later.explorer.config = search.explorer.config ∧
          later.explorer.statistics = search.explorer.statistics := by
        rw [← hlater.1, ← hlater.2, hadopt, ← hadopted.1, ← hadopted.2, ← hweighs.same.1,
          ← hweighs.same.2]
        exact ⟨rfl, rfl⟩
      obtain ⟨hconfig, hstatistics⟩ := ih hready
      rw [hcounted.1] at hconfig
      rw [hcounted.2] at hstatistics
      exact ⟨hconfig, hstatistics⟩
    | complete => exact hended rfl
    | stopped => exact hended rfl

/-- A turn of an exhaustive search that executes an event counts it, and one that does not leaves
the explorer alone. -/
theorem expand_counts (search : Search) (frontier : Frontier)
    (hreducing : search.explorer.reducing = false) :
    match search.expand frontier with
    | .fired _ later _ => later.executed = search.executed + 1 ∧
        later.explorer = { search.explorer with statistics := search.explorer.statistics.count }
    | .moved later _ => later.executed = search.executed ∧ later.explorer = search.explorer
    | .ended later _ => later.executed = search.executed ∧ later.explorer = search.explorer := by
  unfold expand
  cases frontier.events with
  | nil => cases frontier.pending <;> exact ⟨rfl, rfl⟩
  | cons event events =>
    cases hlimit : search.atLimit with
    | true => exact ⟨rfl, rfl⟩
    | false =>
      have hhere : (search.moveTo frontier.values).explorer.reducing = false := hreducing
      simp only [Bool.false_eq_true, if_false, branch,
        Explorer.choiceAdvanced_of_not_reducing hhere, accept]
      rw [execute_of_not_reducing (by exact hreducing)]
      exact ⟨rfl, rfl⟩

/-- An exhaustive search counts the events that it executes, and its explorer counts them too. -/
theorem exhaustive_counts (hreducing : search.explorer.reducing = false) (turns : Nat)
    (frontier : Frontier) :
    let final := (search.takeTurns expand turns frontier).1
    let count := (firings expand turns search frontier).length
    final.executed = search.executed + count ∧
      final.explorer.config = search.explorer.config ∧
      final.explorer.statistics.transitions = search.explorer.statistics.transitions + count := by
  induction turns generalizing search frontier with
  | zero => exact ⟨rfl, rfl, rfl⟩
  | succ turns ih =>
    have hturn := search.expand_counts frontier hreducing
    simp only [takeTurns, firings]
    generalize search.expand frontier = turn at hturn
    cases turn with
    | fired firing later next =>
      obtain ⟨hexecuted, hexplorer⟩ := hturn
      have hstill : later.explorer.reducing = false := by
        rw [hexplorer]
        exact hreducing
      obtain ⟨hfinal, hconfig, htransitions⟩ := ih hstill next
      rw [hexplorer] at hconfig htransitions
      simp only [List.length_cons]
      refine ⟨by omega, hconfig, htransitions.trans ?_⟩
      simp only [Statistics.count]
      omega
    | moved later next =>
      obtain ⟨hexecuted, hexplorer⟩ := hturn
      have hrest := ih (by rw [hexplorer, hreducing]) next
      rw [hexecuted, hexplorer] at hrest
      exact hrest
    | ended later outcome =>
      obtain ⟨hexecuted, hexplorer⟩ := hturn
      exact ⟨hexecuted, by rw [hexplorer], by rw [hexplorer]; rfl⟩

/-- The events executed when there is something to reduce. -/
theorem fired_of_reduced {program : Program} {config : ExploreConfig} {limit : Nat}
    (hstart : start program config limit = .ok search) (hreduce : config.stateReduction = true)
    (hevents : program.events ≠ []) :
    search.fired = (firings decide search.registerPoint.1.decisionBound search.registerPoint.1
      search.registerPoint.2).map Prod.snd := by
  have hreducing := (underway_start hstart hreduce hevents).explorer.reducing
  simp [fired, executions, hreducing]

/-- The events executed when there is nothing to reduce. -/
theorem fired_of_plain {program : Program} {config : ExploreConfig} {limit : Nat}
    (hstart : start program config limit = .ok search)
    (hplain : config.stateReduction = false ∨ program.events = []) :
    search.fired = (firings expand search.registerPoint.1.expansionBound search.registerPoint.1
      (search.registerPoint.1.outset search.registerPoint.2)).map Prod.snd := by
  have hreducing := (sweeps_start hstart hplain search.registerPoint.2).reducing
  simp [fired, expansions, hreducing]

/-- What the search of a program counts, whatever its limit: it counts each event that it executes,
its explorer counts as many transitions, and a reduced search counts an event once per state as
unique. -/
theorem explore_counts {program : Program} {config : ExploreConfig} {limit : Nat}
    (hstart : start program config limit = .ok search) :
    let last := search.explore.1
    last.executed = search.fired.length ∧
      last.explorer.config = config ∧
      last.explorer.summary.transitions = search.fired.length ∧
      (isReduced program config = true →
        last.explorer.summary.uniqueTransitions = search.fired.dedup.length) := by
  cases hmode : isReduced program config with
  | true =>
    obtain ⟨hreduce, hevents⟩ := isReduced_iff.mp hmode
    have hunderway := underway_start hstart hreduce hevents
    have hfired := fired_of_reduced hstart hreduce hevents
    have hexecuted := hunderway.ready.executed_eq search.registerPoint.1.decisionBound
    obtain ⟨hconfig, hstatistics⟩ :=
      hunderway.ready.counts search.registerPoint.1.decisionBound
    rw [← explore_eq hstart hreduce hevents] at hexecuted hconfig hstatistics
    rw [← hfired] at hstatistics
    have hnothing : search.registerPoint.1.executed = 0 ∧
        search.registerPoint.1.explorer.config = config ∧
        search.registerPoint.1.explorer.statistics = .empty := by
      rw [registerPoint_start hstart hreduce hevents]
      obtain ⟨-, rfl⟩ := start_eq_ok_iff.mp hstart
      exact ⟨rfl, rfl, rfl⟩
    rw [hnothing.1, Nat.zero_add] at hexecuted
    rw [hnothing.2.2] at hstatistics
    refine ⟨by rw [hexecuted, hfired, List.length_map], hconfig.trans hnothing.2.1, ?_,
      fun _ => ?_⟩
    · rw [Explorer.summary, hstatistics, Statistics.transitions_recordAll]
      exact Nat.zero_add _
    · rw [Explorer.summary, hstatistics, Statistics.uniqueTransitions_recordAll]
  | false =>
    have hplain := isReduced_eq_false_iff.mp hmode
    have hreducing := (sweeps_start hstart hplain search.registerPoint.2).reducing
    have hfired := fired_of_plain hstart hplain
    obtain ⟨hexecuted, hconfig, htransitions⟩ := exhaustive_counts hreducing
      search.registerPoint.1.expansionBound
      (search.registerPoint.1.outset search.registerPoint.2)
    rw [← explore_of_plain hstart hplain] at hexecuted hconfig htransitions
    have hlength := congrArg List.length hfired
    rw [List.length_map] at hlength
    have hnothing : search.registerPoint.1.executed = 0 ∧
        search.registerPoint.1.explorer.config = config ∧
        search.registerPoint.1.explorer.statistics.transitions = 0 := by
      rw [registerPoint_start_of_plain hstart hplain]
      obtain ⟨-, rfl⟩ := start_eq_ok_iff.mp hstart
      exact ⟨rfl, rfl, rfl⟩
    rw [hnothing.1, Nat.zero_add, ← hlength] at hexecuted
    rw [hnothing.2.2, Nat.zero_add, ← hlength] at htransitions
    exact ⟨hexecuted, hconfig.trans hnothing.2.1, htransitions, fun h => absurd h (by simp)⟩

/-- A search that comes to an end with no report to be written is summed up there. -/
theorem run_of_explore {last : Search} {outcome : Outcome}
    (hexplore : search.explore = (last, .ok outcome))
    (hreport : last.explorer.config.reportPath = none) {m : Type → Type} [Monad m] [LawfulMonad m]
    [FileStore m] :
    search.run (m := m) = pure (last, .ok ⟨outcome, last.explorer.summary⟩) := by
  simp only [run, hexplore, Explorer.finish, hreport, pure_bind]
  rfl

end Search

end EventOrder
