import EventOrder.Proofs.Search.Recording
import EventOrder.Proofs.Search.Termination
import Mathlib.Logic.Relation

/-!
# Every event is served

An execution goes on until it comes to a state of an earlier execution or has taken all events since
it first entered the state it is in. So from every state that the reduced search enters, with no
depth limit, the events that it executes lead on to a state in which any given event is executed.
-/

namespace EventOrder.Search

section Executed

variable {code : Code} {fires : Values → Event → Prop} {values later last : Values} {event : Event}

/-- Events that are executed lead from one state to another. -/
def Leads (code : Code) (fires : Values → Event → Prop) : Values → Values → Prop :=
  Relation.ReflTransGen fun values later =>
    ∃ event, fires values event ∧ later = code.next event values

/-- Events that are executed lead to a state in which the event is executed. -/
def Served (code : Code) (fires : Values → Event → Prop) (values : Values) (event : Event) :
    Prop :=
  ∃ later, Leads code fires values later ∧ fires later event

/-- Executing one more event leads on. -/
theorem Leads.next (h : Leads code fires values later) (hfires : fires later event) :
    Leads code fires values (code.next event later) :=
  Relation.ReflTransGen.tail h ⟨event, hfires, rfl⟩

/-- An event served in a state is served in all states that lead there. -/
theorem Served.of_leads (h : Served code fires later event)
    (hleads : Leads code fires values later) : Served code fires values event := by
  obtain ⟨last, hlast, hfires⟩ := h
  exact ⟨last, Relation.ReflTransGen.trans hleads hlast, hfires⟩

end Executed

variable {search : Search} {point : DecisionPoint} {waiting taken : List BacktrackPoint}
  {fires : Values → Event → Prop}

/-- What a search under way has served of the events, `fires` being what is executed at any time. -/
structure Serves (search : Search) (fires : Values → Event → Prop) : Prop where
  /-- Executions may be of any depth. -/
  maxDepth : search.explorer.config.maxDepth = 0
  /-- In the states of earlier executions all events are served. -/
  earlier : ∀ state, search.explorer.visits.isEarlier state = true →
    ∃ values, search.machine.numbering[values]? = some state ∧
      ∀ event ∈ search.code.events, Served search.code fires values event
  /-- The states entered for the first time are numbered. -/
  counted : ∀ state ∈ search.explorer.visits.counts,
    ∃ values : Values, search.machine.numbering[values]? = some state
  /-- A state of the execution under way leads to the machine's state, and in it the events taken
  since are served. -/
  entered : ∀ position state, search.Enters position state →
    ∃ values, search.machine.numbering[values]? = some state ∧
      Leads search.code fires values search.machine.values ∧
      ∀ later event, position ≤ later → later < search.explorer.counter →
        search.explorer.schedule.eventAt? later = some event →
          Served search.code fires values event
  /-- In all states outside the execution under way all events are served. -/
  outside : ∀ (values : Values) (state : StateId),
    search.machine.numbering[values]? = some state →
      (∀ event ∈ search.code.events, Served search.code fires values event) ∨
        ∃ position, search.Enters position state

/-- Executing the due event brings the machine to the values that it makes. -/
private theorem values_advanced (search : Search) (point : DecisionPoint) (due : Event) :
    (search.advanced point due).machine.values = search.code.next due search.machine.values :=
  Machine.values_moveTo _ _

/-- When an execution is over all events are served in all states numbered. -/
theorem Serves.of_isOver (h : search.Serves fires) (htracks : search.Tracks)
    (hunderway : search.Underway point waiting taken) (hover : search.IsOver) :
    ∀ (values : Values) (state : StateId), search.machine.numbering[values]? = some state →
      ∀ event ∈ search.code.events, Served search.code fires values event := by
  have hhere : ∀ event ∈ search.code.events,
      Served search.code fires search.machine.values event := by
    rcases hover with hdepth | ⟨-, hmatched⟩
    · simp [Explorer.atMaxDepth, h.maxDepth] at hdepth
    · rcases Bool.or_eq_true _ _ ▸ hmatched with hearlier | hcovers
      · obtain ⟨values, hvalues, hserved⟩ := h.earlier _ hearlier
        rwa [hunderway.machine.injective _ _ _ hunderway.machine.here hvalues]
      · intro event hevent
        obtain ⟨since, hsince, hall⟩ := (hunderway.coversAllEvents_iff _).mp hcovers
        obtain ⟨position, -, -, henters, honly⟩ := htracks.only _ since hsince
        obtain ⟨later, hlater, hlt, hat⟩ := honly event (hall event hevent)
        obtain ⟨values, hvalues, -, hserved⟩ := h.entered position _ henters
        rw [hunderway.machine.injective _ _ _ hunderway.machine.here hvalues]
        exact hserved later event hlater hlt hat
  intro values state hvalues event hevent
  rcases h.outside values state hvalues with hserved | ⟨position, henters⟩
  · exact hserved event hevent
  · obtain ⟨others, hothers, hleads, -⟩ := h.entered position state henters
    rw [hunderway.machine.injective _ _ _ hvalues hothers]
    exact (hhere event hevent).of_leads hleads

/-- Only the state entered is counted anew. -/
private theorem mem_counts_of_enter {visits : Visits} {entered state : StateId}
    (h : state ∈ (visits.enter entered).counts) : state = entered ∨ state ∈ visits.counts := by
  cases hearlier : visits.isEarlier entered with
  | true =>
    rw [Visits.enter, hearlier] at h
    exact Or.inr h
  | false =>
    rw [Visits.enter, hearlier] at h
    rcases Std.ExtTreeMap.mem_insert.mp h with hsame | hold
    · exact Or.inl (Std.compare_eq_iff_eq.mp hsame).symm
    · exact Or.inr hold

/-- Executing the due event serves it in all states of the execution. -/
theorem Serves.advanced (h : search.Serves fires)
    (hunderway : search.Underway point waiting taken) {due : Event}
    (hdue : due ∈ search.code.events)
    (hat : search.explorer.schedule.eventAt? search.explorer.counter = some due)
    (hrecorded : search.matchesState = false)
    (hweighs : search.Weighs point due (search.weighed point))
    (hfires : fires search.machine.values due) : (search.advanced point due).Serves fires := by
  obtain ⟨decisions, -, -, hreducing⟩ := (hunderway.weighed hdue hweighs).underway
  have hconfig := (search.advanced_filter point due hreducing.reducing).2.1
  have henters := hunderway.enters_advanced hdue hrecorded hweighs
  obtain ⟨-, hcounter, hschedule, hvisits, -⟩ :=
    hunderway.advanced_same hdue hrecorded hweighs
  have hsettled := hunderway.machine.toNumbered.settled_moveTo
    (search.code.next due search.machine.values)
  have hkept {values : Values} {state : StateId}
      (hvalues : search.machine.numbering[values]? = some state) :
      (search.advanced point due).machine.numbering[values]? = some state :=
    Machine.numbering_moveTo hvalues _
  have hstate : (search.advanced point due).machine.numbering[
      search.code.next due search.machine.values]? = some (search.stepped due).state := by
    have hstands := hsettled.here
    rwa [Machine.values_moveTo] at hstands
  refine ⟨by rw [hconfig, hweighs.same.1, h.maxDepth], ?_, ?_, ?_, ?_⟩
  · intro state hstate
    rw [hvisits] at hstate
    obtain ⟨values, hvalues, hserved⟩ := h.earlier state hstate
    exact ⟨values, hkept hvalues, hserved⟩
  · intro state hcounted
    rw [hvisits] at hcounted
    rcases mem_counts_of_enter hcounted with rfl | hold
    · exact ⟨_, hstate⟩
    · obtain ⟨values, hvalues⟩ := h.counted state hold
      exact ⟨values, hkept hvalues⟩
  · intro position state hentered
    rw [hcounter, hschedule, values_advanced]
    rcases (henters position state).mp hentered with hold | ⟨rfl, rfl⟩
    · obtain ⟨values, hvalues, hleads, hserved⟩ := h.entered position state hold
      refine ⟨values, hkept hvalues, hleads.next hfires, fun later event hlater hlt hevent => ?_⟩
      by_cases hlast : later = search.explorer.counter
      · rw [hlast, hat] at hevent
        exact Option.some.inj hevent ▸ ⟨_, hleads, hfires⟩
      · exact hserved later event hlater (by omega) hevent
    · exact ⟨_, hstate, Relation.ReflTransGen.refl,
        fun later event hlater hlt => absurd hlt (by omega)⟩
  · intro values state hvalues
    rw [show (search.advanced point due).machine.numbering[values]? = _ from
      Machine.getElem?_numbering_moveTo _ _ values] at hvalues
    split at hvalues
    · exact Or.inr ⟨_, (henters _ state).mpr (Or.inr ⟨rfl, Option.some.inj hvalues⟩)⟩
    · rcases h.outside values state hvalues with hserved | ⟨position, hold⟩
      · exact Or.inl hserved
      · exact Or.inr ⟨position, (henters position state).mpr (Or.inl hold)⟩

/-- A restart leaves no state but that of the backtrack point in the execution under way. -/
theorem Serves.restartedAt (h : search.Serves fires) (htracks : search.Tracks)
    (hunderway : search.Underway point waiting taken) {due : Event}
    (hdue : due ∈ search.code.events) {weighed : Explorer Values PatternFilter}
    (hweighs : search.Weighs point due weighed) (hover : search.IsOver) {next : BacktrackPoint}
    {values : Values} (hvalues : search.machine.numbering[values]? = some next.state)
    (rest : Backlog) (isNew : Bool) (closed : List PointId) :
    (search.restartedAt weighed next rest values isNew closed).Serves fires := by
  have hserved := h.of_isOver htracks hunderway hover
  obtain ⟨-, hcounter, hvisits, hnothing⟩ :=
    hunderway.restartedAt_same hdue hweighs next rest values isNew closed
  have hsame := (hunderway.weighed hdue hweighs).same.2.2.2
  have hconfig : (search.restartedAt weighed next rest values isNew closed).explorer.config =
      search.explorer.config := hweighs.same.1
  refine ⟨by rw [hconfig, h.maxDepth], ?_, ?_, ?_, ?_⟩
  · intro state hearlier
    have hmet : search.explorer.visits.isEarlier state = true ∨
        state ∈ search.explorer.visits.counts := by
      rw [hvisits, hsame] at hearlier
      simpa [Visits.isEarlier] using hearlier
    obtain ⟨others, hothers⟩ : ∃ others : Values,
        search.machine.numbering[others]? = some state := by
      rcases hmet with hold | hcounted
      · obtain ⟨others, hothers, -⟩ := h.earlier state hold
        exact ⟨others, hothers⟩
      · exact h.counted state hcounted
    exact ⟨others, hothers, hserved others state hothers⟩
  · intro state hcounted
    rw [hvisits] at hcounted
    exact absurd hcounted Std.ExtTreeMap.not_mem_empty
  · intro position state hentered
    rcases hentered with ⟨transition, htaken, -⟩ | ⟨-, hstate⟩
    · rw [hnothing] at htaken
      exact absurd htaken (by simp)
    · refine ⟨values, hstate ▸ hvalues, Relation.ReflTransGen.refl, ?_⟩
      intro later event _ hlt
      rw [hcounter] at hlt
      exact absurd hlt (Nat.not_lt_zero _)
  · exact fun others state hothers => Or.inl (hserved others state hothers)

/-- At the start of a search without depth limit the initial state is the only one. -/
theorem serves_start {program : Program} {config : ExploreConfig} {limit : Nat}
    (hstart : start program config limit = .ok search) (hreduce : config.stateReduction = true)
    (hevents : program.events ≠ []) (hdepth : config.maxDepth = 0) :
    search.registerPoint.1.Serves fires := by
  have hhere := (Machine.settled_start program.code.initial).here
  rw [registerPoint_start hstart hreduce hevents]
  obtain ⟨-, rfl⟩ := start_eq_ok_iff.mp hstart
  refine ⟨hdepth, ?_, ?_, ?_, ?_⟩
  · intro state hearlier
    exact absurd hearlier (by simp [registered, Explorer.start, Visits.empty, Visits.isEarlier])
  · intro state hcounted
    exact absurd hcounted (by simp [registered, Explorer.start, Visits.empty])
  · intro position state hentered
    rcases hentered with ⟨transition, htaken, -⟩ | ⟨-, rfl⟩
    · exact absurd htaken (by simp [taken?_registered])
    · exact ⟨_, hhere, Relation.ReflTransGen.refl,
        fun later event _ hlt => absurd hlt (Nat.not_lt_zero _)⟩
  · intro values state hvalues
    have hinitial : values = program.code.initial := Machine.mem_numbering_start.mp
      (Std.ExtTreeMap.mem_iff_isSome_getElem?.mpr (Option.isSome_of_eq_some hvalues))
    rw [Machine.values_start, ← hinitial] at hhere
    subst hinitial
    exact Or.inr ⟨0, Or.inr ⟨rfl, Option.some.inj (hhere.symm.trans hvalues)⟩⟩

/-- States keep their numbers to the end of a search. -/
theorem Ready.numbering_takeTurns (h : search.Ready point waiting taken) {turns : Nat}
    {final : Search} {outcome : Except ExplorationError Outcome}
    (hrun : search.takeTurns decide turns point = (final, outcome)) {values : Values}
    {state : StateId} (hvalues : search.machine.numbering[values]? = some state) :
    final.machine.numbering[values]? = some state := by
  induction turns generalizing search point waiting taken with
  | zero =>
    obtain rfl : search = final := congrArg Prod.fst hrun
    exact hvalues
  | succ turns ih =>
    have hturn := h.turn
    simp only [takeTurns] at hrun
    generalize search.decide point = turn at hturn hrun
    cases hturn with
    | fired _ _ _ _ _ hafter => exact ih hafter.ready hrun (Machine.numbering_moveTo hvalues _)
    | moved _ _ _ _ _ _ _ hadopt hready =>
      have hsame := congrArg (fun search => search.machine.numbering[values]?) hadopt
      exact ih hready hrun (hsame.trans hvalues)
    | complete _ _ _ _ _ _ _ hmachine =>
      obtain rfl : _ = final := congrArg Prod.fst hrun
      rw [hmachine]
      exact hvalues
    | stopped _ hadopt =>
      obtain rfl : _ = final := congrArg Prod.fst hrun
      have hsame := congrArg (fun search => search.machine.numbering[values]?) hadopt
      exact hsame.trans hvalues

/-- An event is executed in a numbered state, and what it leads to is numbered at the end. -/
theorem Ready.numbered_of_fired (h : search.Ready point waiting taken) {turns : Nat}
    {final : Search} {outcome : Except ExplorationError Outcome}
    (hrun : search.takeTurns decide turns point = (final, outcome)) {execution : ExecutionId}
    {firing : Firing} (hfired : (execution, firing) ∈ firings decide turns search point) :
    ∃ values, final.machine.numbering[values]? = some firing.state ∧
      search.code.next firing.event values ∈ final.machine.numbering := by
  induction turns generalizing search point waiting taken with
  | zero => exact absurd hfired List.not_mem_nil
  | succ turns ih =>
    have hturn := h.turn
    simp only [firings, takeTurns] at hfired hrun
    generalize search.decide point = turn at hturn hfired hrun
    cases hturn with
    | @fired due _ _ _ _ _ next _ hafter =>
      rcases List.mem_cons.mp hfired with hfirst | hlater
      · have hsame : firing = ⟨search.machine.state, due⟩ := congrArg Prod.snd hfirst
        have hbefore := Machine.numbering_moveTo h.underway.machine.here
          (search.code.next due search.machine.values)
        have hafterwards := hafter.machine.here
        rw [values_advanced] at hafterwards
        rw [hsame]
        refine ⟨search.machine.values, hafter.ready.numbering_takeTurns hrun hbefore, ?_⟩
        exact Std.ExtTreeMap.mem_iff_isSome_getElem?.mpr
          (Option.isSome_of_eq_some (hafter.ready.numbering_takeTurns hrun hafterwards))
      · have hrest := ih hafter.ready hrun hlater
        exact hrest
    | moved _ _ _ _ _ _ _ hadopt hready =>
      obtain ⟨values, hvalues, hnext⟩ := ih hready hrun hfired
      have hcode := congrArg Search.code hadopt
      exact ⟨values, hvalues, hcode ▸ hnext⟩
    | complete => exact absurd hfired List.not_mem_nil
    | stopped => exact absurd hfired List.not_mem_nil

/-- What a reduced search leaves behind that is complete. -/
structure Surveys (final : Search) (code : Code) (fires : Values → Event → Prop) : Prop where
  /-- The numbering is one to one. -/
  machine : final.machine.Numbered
  /-- Only reachable states are numbered. -/
  explores : final.machine.Explores code
  /-- All events are served in all states numbered. -/
  served : ∀ (values : Values) (state : StateId), final.machine.numbering[values]? = some state →
    ∀ event ∈ code.events, Served code fires values event

/-- A search that is complete has served all events in all states numbered. -/
theorem Ready.surveys (h : search.Ready point waiting taken)
    (haccounted : search.adopt.Accounted taken) (hserves : search.adopt.Serves fires)
    {turns : Nat} {final : Search}
    (hcomplete : search.takeTurns decide turns point = (final, .ok .complete))
    (hfires : ∀ execution firing, (execution, firing) ∈ firings decide turns search point →
      ∀ values : Values, final.machine.numbering[values]? = some firing.state →
        fires values firing.event) :
    final.Surveys search.code fires := by
  induction turns generalizing search point waiting taken with
  | zero => simp [takeTurns] at hcomplete
  | succ turns ih =>
    have hunderway := h.underway
    have hturn := h.turn
    have hkept := h.numbering_takeTurns hcomplete hunderway.machine.here
    simp only [firings, takeTurns] at hfires hcomplete
    generalize search.decide point = turn at hturn hfires hcomplete
    cases hturn with
    | @fired due hdue hat hrecorded hweighs hnew next more hafter =>
      have hfirst := hfires _ _ List.mem_cons_self _ hkept
      have hlater := haccounted.advanced hunderway hdue hat hrecorded hweighs hnew
      have hserved := hserves.advanced hunderway hdue hat hrecorded hweighs hfirst
      have hrest := ih hafter.ready (hafter.adopt_eq.symm ▸ hlater) (hafter.adopt_eq.symm ▸ hserved)
        hcomplete fun execution firing hfired =>
          hfires execution firing (List.mem_cons_of_mem _ hfired)
      exact hrest
    | @moved _ hdue hat hweighs hover _ rest hpop _ values isNew closed _ _ hafter _ hadopt
        hready =>
      have hlater := haccounted.restartedAt hunderway hdue hweighs hpop values isNew closed
      have hserved := hserves.restartedAt haccounted.tracks hunderway hdue hweighs hover
        hafter.machine.here rest isNew closed
      have hrest := ih hready (hadopt ▸ hlater) (hadopt ▸ hserved) hcomplete hfires
      have hcode := congrArg Search.code hadopt
      exact hcode ▸ hrest
    | complete hdue hat hweighs hover hpop hknowledge hhistory hmachine hexecuted =>
      obtain rfl : _ = final := congrArg Prod.fst hcomplete
      refine ⟨?_, ?_, ?_⟩
      · rw [hmachine]
        exact hunderway.machine.toNumbered
      · rw [hmachine]
        exact haccounted.explores
      · rw [hmachine]
        exact hserves.of_isOver haccounted.tracks hunderway hover
    | stopped => simp at hcomplete

end EventOrder.Search
