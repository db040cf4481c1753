import EventOrder.Proofs.Search.Expansion
import EventOrder.Proofs.Search.Runs

/-!
# What an exhaustive search executes

An exhaustive search notes down nothing twice of what it has still to do: a state goes on the stack
when it gets its number, and is off the stack while events are executed in it. Each event is
therefore executed exactly once in each state that can be reached.
-/

namespace EventOrder.Search

variable {search : Search} {frontier : Frontier} {event : Event} {events : List Event}

/-- The events that the exhaustive search of a program executes, each with its state. -/
def expansions (search : Search) : List Firing :=
  let (search, point) := search.registerPoint
  (firings expand search.expansionBound search (search.outset point)).map Prod.snd

/-- A turn of an exhaustive search leaves it exhaustive and leaves its code. -/
private theorem expand_leaves (hreducing : search.explorer.reducing = false)
    (frontier : Frontier) : (search.expand frontier).Leaves fun later _ =>
      later.explorer.reducing = false ∧ later.code = search.code := by
  unfold expand
  cases frontier.events with
  | nil =>
    cases frontier.pending with
    | nil => trivial
    | cons values pending => exact ⟨hreducing, rfl⟩
  | cons event events =>
    have hcounted : ({ search.explorer with statistics := search.explorer.statistics.count } :
        Explorer Values PatternFilter).reducing = false := hreducing
    dsimp only
    split
    · trivial
    · simp only [branch, moveTo, accept, Explorer.choiceAdvanced_of_not_reducing hreducing]
      rw [execute_of_not_reducing (by exact hcounted)]
      exact ⟨hcounted, rfl⟩

/-- An exhaustive search stays exhaustive and keeps its code. -/
theorem Reaches.exhaustive {origin : Search} {first : Frontier}
    (h : Reaches expand origin first search frontier)
    (hreducing : origin.explorer.reducing = false) :
    search.explorer.reducing = false ∧ search.code = origin.code := by
  refine h.keeps (P := fun later _ => later.explorer.reducing = false ∧ later.code = origin.code)
    ⟨hreducing, rfl⟩ fun between here _ hthere => ?_
  have hleaves := expand_leaves hthere.1 here
  generalize between.expand here = turn at hleaves
  cases turn with
  | fired | moved => exact ⟨hleaves.1, hleaves.2.trans hthere.2⟩
  | ended => trivial

/-- An exhaustive search that has noted down nothing twice. -/
structure Tidy (search : Search) (frontier : Frontier) : Prop extends search.Sweeps frontier where
  /-- No event is to be executed twice in the state under expansion. -/
  distinct_events : frontier.events.Nodup
  /-- No state is on the stack twice. -/
  distinct_pending : frontier.pending.Nodup
  /-- While events are executed in a state it is off the stack. -/
  not_pending : frontier.events ≠ [] → frontier.values ∉ frontier.pending

/-- Whether an event is still to be executed with the values: they are not numbered yet, or on the
stack, or under expansion and the event is left. -/
def Due (search : Search) (frontier : Frontier) (values : Values) (event : Event) : Prop :=
  values ∉ search.machine.numbering ∨ values ∈ frontier.pending ∨
    values = frontier.values ∧ event ∈ frontier.events

instance (search : Search) (frontier : Frontier) (values : Values) (event : Event) :
    Decidable (search.Due frontier values event) :=
  inferInstanceAs (Decidable (_ ∨ _ ∨ _))

/-- The values that are numbered after an event. -/
private theorem mem_numbering_expanded {values : Values} :
    values ∈ (search.expanded frontier event).machine.numbering ↔
      values = search.code.next event frontier.values ∨ values ∈ search.machine.numbering :=
  search.machine.mem_numbering_moveTo

/-- The states on the stack after an event. -/
private theorem mem_pending_remaining {values : Values} :
    values ∈ (search.remaining frontier event events).pending ↔
      values = search.code.next event frontier.values ∧ values ∉ search.machine.numbering ∨
        values ∈ frontier.pending := by
  have hnew : (search.expanded frontier event).machine.isNew = true ↔
      search.code.next event frontier.values ∉ search.machine.numbering :=
    search.machine.isNew_moveTo_iff_notMem _
  rw [remaining, List.mem_append]
  refine or_congr_left ?_
  split
  · rename_i hisNew
    rw [List.mem_singleton]
    exact ⟨fun hsame => ⟨hsame, hsame ▸ hnew.mp hisNew⟩, And.left⟩
  · rename_i hold
    simp only [List.not_mem_nil, false_iff, not_and, not_not]
    rintro rfl
    exact not_not.mp fun hnot => hold (hnew.mpr hnot)

/-- Executing an event notes down nothing twice. -/
theorem Tidy.expanded (h : search.Tidy frontier) (hevents : frontier.events = event :: events)
    (hafter : (search.expanded frontier event).Sweeps (search.remaining frontier event events)) :
    (search.expanded frontier event).Tidy (search.remaining frontier event events) := by
  have hdistinct := h.distinct_events
  rw [hevents, List.nodup_cons] at hdistinct
  refine { toSweeps := hafter, distinct_events := hdistinct.2, distinct_pending := ?_,
           not_pending := fun _ => ?_ }
  · rw [remaining]
    refine List.Nodup.append (by split <;> simp) h.distinct_pending ?_
    intro values hfound hpending
    split at hfound
    · rename_i hisNew
      obtain rfl := List.mem_singleton.mp hfound
      exact (search.machine.isNew_moveTo_iff_notMem _).mp hisNew (h.numbered_of_pending _ hpending)
    · exact List.not_mem_nil hfound
  · rw [mem_pending_remaining]
    rintro (⟨-, hnumbered⟩ | hpending)
    · exact hnumbered h.here
    · exact h.not_pending (by simp [hevents]) hpending

/-- Taking a state off the stack notes down nothing twice. -/
theorem Tidy.turnedTo (h : search.Tidy frontier) {values : Values} {pending : List Values}
    (hpending : frontier.pending = values :: pending) {state : StateId} {point : DecisionPoint}
    (hafter : (search.turnedTo values state).Sweeps ⟨point, values, search.code.events, pending⟩) :
    (search.turnedTo values state).Tidy ⟨point, values, search.code.events, pending⟩ := by
  have hdistinct := h.distinct_pending
  rw [hpending, List.nodup_cons] at hdistinct
  exact { toSweeps := hafter, distinct_events := nodup_events search.code,
          distinct_pending := hdistinct.2, not_pending := fun _ => hdistinct.1 }

/-- What is due before an event is executed is this event and what is due afterwards. -/
theorem Tidy.due_expanded (h : search.Tidy frontier) (hevents : frontier.events = event :: events)
    (values : Values) (other : Event) :
    search.Due frontier values other ↔
      (search.expanded frontier event).Due (search.remaining frontier event events) values other ∨
        values = frontier.values ∧ other = event := by
  have hvalues : (search.remaining frontier event events).values = frontier.values := rfl
  have hleft : (search.remaining frontier event events).events = events := rfl
  simp only [Due, mem_numbering_expanded, mem_pending_remaining, hvalues, hleft, hevents,
    List.mem_cons]
  by_cases hnumbered : values ∈ search.machine.numbering
  · simp only [hnumbered]
    tauto
  · have hother : values ≠ frontier.values := fun hsame => hnumbered (hsame ▸ h.here)
    simp only [hnumbered, hother]
    tauto

/-- An event is no longer due once it was executed. -/
theorem Tidy.not_due_expanded (h : search.Tidy frontier)
    (hevents : frontier.events = event :: events) :
    ¬(search.expanded frontier event).Due (search.remaining frontier event events)
      frontier.values event := by
  have hdistinct := h.distinct_events
  rw [hevents, List.nodup_cons] at hdistinct
  rintro (hnumbered | hpending | ⟨-, hlater⟩)
  · exact hnumbered (mem_numbering_expanded.mpr (Or.inr h.here))
  · rcases mem_pending_remaining.mp hpending with ⟨-, hnumbered⟩ | hold
    · exact hnumbered h.here
    · exact h.not_pending (by simp [hevents]) hold
  · exact hdistinct.1 hlater

/-- The same events are due in a state taken off the stack as were on the stack. -/
theorem due_turnedTo (hevents : frontier.events = []) {values : Values} {pending : List Values}
    (hpending : frontier.pending = values :: pending) (state : StateId) (point : DecisionPoint)
    (others : Values) {other : Event} (hother : other ∈ search.code.events) :
    search.Due frontier others other ↔
      (search.turnedTo values state).Due ⟨point, values, search.code.events, pending⟩ others
        other := by
  have hnumbering : (search.turnedTo values state).machine.numbering =
      search.machine.numbering := rfl
  simp only [Due, hnumbering, hevents, hpending, List.mem_cons, List.not_mem_nil, and_false,
    or_false, hother, and_true]
  tauto

/-- The events listed are what an exhaustive search that ends in `final` has still to execute. -/
structure Executes (search : Search) (frontier : Frontier) (fired : List Firing)
    (final : Search) : Prop where
  /-- No number is taken back. -/
  kept : ∀ (values : Values) (state : StateId), search.machine.numbering[values]? = some state →
    final.machine.numbering[values]? = some state
  /-- Each event is executed once where it is due, and nowhere else. -/
  once : ∀ (values : Values) (state : StateId), final.machine.numbering[values]? = some state →
    ∀ event ∈ search.code.events,
      fired.count ⟨state, event⟩ = if search.Due frontier values event then 1 else 0
  /-- All events are executed in each state that is left, and those that are left in this one. -/
  length : fired.length =
    search.toVisit frontier * search.code.events.length + frontier.events.length
  /-- What is executed is counted. -/
  executed : final.executed = search.executed + fired.length
  /-- So are the transitions. -/
  transitions : final.explorer.statistics.transitions =
    search.explorer.statistics.transitions + fired.length

/-- An event that is executed is the first of those that the search has still to execute. -/
theorem Executes.fired (h : search.Tidy frontier) (hevents : frontier.events = event :: events)
    {state : StateId} (hstate : search.machine.numbering[frontier.values]? = some state)
    (hafter : (search.expanded frontier event).Sweeps (search.remaining frontier event events))
    {fired : List Firing} {final : Search} (hfinal : final.machine.Numbered)
    (hrest : (search.expanded frontier event).Executes (search.remaining frontier event events)
      fired final) :
    search.Executes frontier (⟨state, event⟩ :: fired) final := by
  have hkept (values : Values) (number : StateId)
      (hnumber : search.machine.numbering[values]? = some number) :
      final.machine.numbering[values]? = some number :=
    hrest.kept values number (Machine.numbering_moveTo hnumber _)
  refine { kept := hkept, once := ?_, length := ?_, executed := ?_, transitions := ?_ }
  · intro values number hnumber other hother
    have hcount := hrest.once values number hnumber other hother
    rw [List.count_cons, hcount]
    have hdue := h.due_expanded hevents values other
    by_cases hsame : values = frontier.values ∧ other = event
    · obtain ⟨rfl, rfl⟩ := hsame
      obtain rfl := Option.some.inj ((hkept _ _ hstate).symm.trans hnumber)
      simp [h.not_due_expanded hevents, hdue.mpr (Or.inr ⟨rfl, rfl⟩)]
    · have hdifferent : ((⟨state, event⟩ : Firing) == ⟨number, other⟩) = false := by
        simp only [beq_eq_false_iff_ne, ne_eq, Firing.mk.injEq]
        rintro ⟨rfl, rfl⟩
        exact hsame ⟨hfinal.injective _ _ _ hnumber (hkept _ _ hstate), rfl⟩
      simp only [hdifferent, hdue, hsame, or_false, Bool.false_eq_true, if_false, Nat.add_zero]
  · rw [List.length_cons, hrest.length, Sweeps.toVisit_expanded hafter, hevents, List.length_cons]
    rfl
  · rw [hrest.executed, List.length_cons]
    simp only [Search.expanded]
    omega
  · rw [hrest.transitions, List.length_cons]
    simp only [Search.expanded, Statistics.count]
    omega

/-- Taking a state off the stack executes nothing. -/
theorem Executes.moved (hevents : frontier.events = []) {values : Values} {pending : List Values}
    (hpending : frontier.pending = values :: pending) {state : StateId} {point : DecisionPoint}
    {fired : List Firing} {final : Search}
    (hrest : (search.turnedTo values state).Executes ⟨point, values, search.code.events, pending⟩
      fired final) :
    search.Executes frontier fired final := by
  refine { kept := hrest.kept, once := ?_, length := ?_, executed := hrest.executed,
           transitions := hrest.transitions }
  · intro others number hnumber other hother
    rw [hrest.once others number hnumber other hother]
    exact if_congr (due_turnedTo hevents hpending state point others hother).symm rfl rfl
  · have hstates : (search.turnedTo values state).machine.statesSeen =
        search.machine.statesSeen := rfl
    have hcode : (search.turnedTo values state).code = search.code := rfl
    rw [hrest.length]
    simp only [toVisit, hstates, hcode, hevents, hpending, List.length_cons, List.length_nil]
    rw [← Nat.add_assoc, Nat.succ_mul]
    omega

/-- With nothing left to do nothing is executed. -/
theorem Executes.complete (h : search.Tidy frontier) (hevents : frontier.events = [])
    (hpending : frontier.pending = []) : search.Executes frontier [] search := by
  have hmem := h.toSweeps.mem_numbering_iff hevents hpending
  refine { kept := fun _ _ hstate => hstate, once := ?_, length := ?_, executed := rfl,
           transitions := rfl }
  · intro values state hstate other _
    have hnumbered : values ∈ search.machine.numbering :=
      Std.ExtTreeMap.mem_iff_isSome_getElem?.mpr (Option.isSome_of_eq_some hstate)
    simp [Due, hnumbered, hevents, hpending]
  · simp [toVisit, Machine.statesSeen_eq hmem, hevents, hpending]

/-- A run of an exhaustive search to its end executes each event that is due once. -/
theorem Tidy.executes (h : search.Tidy frontier) (hlimit : search.limit = 0) {turns : Nat}
    {final : Search} (hrun : search.takeTurns expand turns frontier = (final, .ok .complete)) :
    final.machine.Numbered ∧
      search.Executes frontier ((firings expand turns search frontier).map Prod.snd) final := by
  induction turns generalizing search frontier with
  | zero => simp [takeTurns] at hrun
  | succ turns ih =>
    have hturn := h.turn hlimit
    simp only [takeTurns, firings] at hrun ⊢
    generalize search.expand frontier = turn at hturn hrun
    cases hturn with
    | fired hevents hstate hafter =>
      obtain ⟨hfinal, hrest⟩ := ih (h.expanded hevents hafter) hlimit hrun
      exact ⟨hfinal, .fired h hevents hstate hafter hfinal hrest⟩
    | moved hevents hpending hafter =>
      obtain ⟨hfinal, hrest⟩ := ih (h.turnedTo hpending hafter) hlimit hrun
      exact ⟨hfinal, .moved hevents hpending hrest⟩
    | complete hevents hpending =>
      obtain ⟨rfl, -⟩ := Prod.mk.inj hrun
      exact ⟨h.machine, .complete h hevents hpending⟩

/-- At first nothing is noted down but the initial state. -/
theorem tidy_start {program : Program} {config : ExploreConfig} {limit : Nat}
    (hstart : start program config limit = .ok search)
    (hplain : config.stateReduction = false ∨ program.events = []) (point : DecisionPoint) :
    search.registerPoint.1.Tidy (search.registerPoint.1.outset point) :=
  { toSweeps := sweeps_start hstart hplain point, distinct_events := List.nodup_nil,
    distinct_pending := List.nodup_singleton _, not_pending := fun hevents => absurd rfl hevents }

/-- A search that has nothing to reduce and no limit runs to its end, and only the report is then
left to be written. The states numbered are those that events lead to from the initial one, and each
event was executed once in each of them. -/
theorem exhaustive_executes_each_once {program : Program} {config : ExploreConfig}
    (hstart : start program config 0 = .ok search)
    (hplain : config.stateReduction = false ∨ program.events = []) :
    ∃ final, search.explore = (final, .ok .complete) ∧
      (∀ (m : Type → Type) [Monad m] [FileStore m],
        search.run (m := m) = do
          let finished ← final.explorer.finish
          return (final, finished.map fun summary => ⟨.complete, summary⟩)) ∧
      (∀ values, values ∈ final.machine.numbering ↔ program.code.Reachable values) ∧
      final.machine.statesSeen = program.code.reachable.ncard ∧
      final.explorer.summary.transitions =
        program.code.reachable.ncard * program.events.length ∧
      final.executed = program.code.reachable.ncard * program.events.length ∧
      search.expansions.length = program.code.reachable.ncard * program.events.length ∧
      ∀ (values : Values) (state : StateId), final.machine.numbering[values]? = some state →
        ∀ event ∈ program.code.events, search.expansions.count ⟨state, event⟩ = 1 := by
  obtain ⟨final, hfinal, hreachable⟩ := explore_numbers_reachable hstart hplain
  have htidy := tidy_start hstart hplain search.registerPoint.2
  have hrun := hfinal
  rw [explore_of_plain hstart hplain] at hrun
  have hregistered := registerPoint_start_of_plain hstart hplain
  have hlimit : search.registerPoint.1.limit = 0 := by
    obtain ⟨-, rfl⟩ := start_eq_ok_iff.mp hstart
    rfl
  obtain ⟨-, hexecutes⟩ := htidy.executes hlimit hrun
  change search.registerPoint.1.Executes _ search.expansions final at hexecutes
  obtain ⟨-, rfl⟩ := start_eq_ok_iff.mp hstart
  have hcode : (initial program config 0).registerPoint.1.code = program.code := rfl
  have hevents : program.code.events.length = program.events.length := by
    simp [events_code, Event.firstEvents]
  have hvisit : (initial program config 0).registerPoint.1.toVisit
      ((initial program config 0).registerPoint.1.outset
        (initial program config 0).registerPoint.2) = program.code.reachable.ncard := by
    have hseen : (initial program config 0).registerPoint.1.machine.statesSeen = 1 :=
      Machine.statesSeen_start program.code.initial
    have hbound := htidy.explores.statesSeen_le
    rw [hseen, hcode] at hbound
    simp only [toVisit, hseen, hcode, outset, List.length_singleton]
    omega
  have hlength : (initial program config 0).expansions.length =
      program.code.reachable.ncard * program.events.length := by
    rw [hexecutes.length, hvisit, hcode, hevents]
    rfl
  have hnothing : (initial program config 0).registerPoint.1.executed = 0 ∧
      (initial program config 0).registerPoint.1.explorer.statistics.transitions = 0 := by
    rw [hregistered]
    exact ⟨rfl, rfl⟩
  refine ⟨final, hfinal, ?_, hreachable, Machine.statesSeen_eq hreachable, ?_, ?_, hlength, ?_⟩
  · intro m _ _
    simp only [run, hfinal]
  · rw [Explorer.summary, hexecutes.transitions, hnothing.2, hlength, Nat.zero_add]
  · rw [hexecutes.executed, hnothing.1, hlength, Nat.zero_add]
  · intro values state hstate event hevent
    rw [hexecutes.once values state hstate event hevent, if_pos]
    have hsame : values ∈ (Machine.start program.code.initial).numbering ↔
        values = program.code.initial := Machine.mem_numbering_start
    by_cases hinitial : values = program.code.initial
    · refine Or.inr (Or.inl (List.mem_singleton.mpr ?_))
      rw [hinitial]
      exact (Machine.values_start program.code.initial).symm
    · exact Or.inl fun hnumbered => hinitial (hsame.mp hnumbered)

/-- Two events that write one variable lead to three states, and both are executed in each. -/
theorem exhaustive_executes_each_once_twoWriters :
    ∃ search final, start twoWriters { stateReduction := false } 0 = .ok search ∧
      search.explore = (final, .ok .complete) ∧ final.executed = 6 ∧
        final.machine.statesSeen = 3 ∧
        final.executed = twoWriters.code.reachable.ncard * 2 ∧
        ∀ (values : Values) (state : StateId), final.machine.numbering[values]? = some state →
          search.expansions.count ⟨state, ⟨0⟩⟩ = 1 := by
  have hstart : start twoWriters { stateReduction := false } 0 =
      .ok (initial twoWriters { stateReduction := false } 0) :=
    start_eq_ok_iff.mpr ⟨by decide +kernel, rfl⟩
  have hfigures : (initial twoWriters { stateReduction := false } 0).explore.1.executed = 6 ∧
      (initial twoWriters { stateReduction := false } 0).explore.1.machine.statesSeen = 3 := by
    decide +kernel
  obtain ⟨final, hfinal, -, -, -, -, hexecuted, -, honce⟩ :=
    exhaustive_executes_each_once hstart (Or.inl rfl)
  rw [hfinal] at hfigures
  exact ⟨_, final, hstart, hfinal, hfigures.1, hfigures.2, hexecuted,
    fun values state hstate => honce values state hstate ⟨0⟩ (by decide +kernel)⟩

end EventOrder.Search
