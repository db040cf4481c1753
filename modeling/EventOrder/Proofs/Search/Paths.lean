import EventOrder.Proofs.Explorer.Snapshots
import EventOrder.Proofs.Search.Expansion
import EventOrder.Proofs.Search.Moments
import EventOrder.Proofs.Trace.Lineage

/-!
# Executions are paths of the program

Whatever a reduced search records of its executions happened: each event was executed with the
values of the state that it is recorded in, and led to those of the state recorded next. An
execution starts where the program does or in the state of the transition whose conflict called for
it, and each place recorded as leading into a state leads there.
-/

namespace EventOrder

/-- A transition leads into a state: its event makes the values of the state of those that it was
taken with. -/
def Machine.LeadsInto (machine : Machine) (code : Code) (transition : Transition)
    (state : StateId) : Prop :=
  ∃ values, machine.numbering[values]? = some transition.state ∧
    machine.numbering[code.next transition.event values]? = some state

/-- No number of a machine is taken back. -/
def Machine.Keeps (machine later : Machine) : Prop :=
  ∀ (values : Values) (state : StateId), machine.numbering[values]? = some state →
    later.numbering[values]? = some state

namespace Knowledge

/-- An execution from an origin may start in a state: the initial one, or that of the transition
taken at the origin. -/
def SetsOut (knowledge : Knowledge) (machine : Machine) (code : Code)
    (origin : Option TransitionRef) (state : StateId) : Prop :=
  match origin with
  | none => machine.numbering[code.initial]? = some state
  | some place => ∃ transition, knowledge.log.taken? place = some transition ∧
      transition.state = state

/-- The executions recorded are paths of the program. -/
structure FollowsProgram (knowledge : Knowledge) (machine : Machine) (code : Code) : Prop where
  /-- Each transition leads into the state of the next one. -/
  consecutive : ∀ id position first second,
    knowledge.log.transition? ⟨id, position⟩ = some first →
      knowledge.log.transition? ⟨id, position + 1⟩ = some second →
        machine.LeadsInto code first second.state
  /-- The first transition of an execution was taken where it may start. -/
  started : ∀ id execution first, knowledge.log.get? id = some execution →
    knowledge.log.taken? ⟨id, 0⟩ = some first →
      knowledge.SetsOut machine code execution.origin first.state
  /-- Each place recorded as leading into a state leads there. -/
  predecessor : ∀ state, ∀ place ∈ knowledge.predecessors.of state,
    ∃ transition, knowledge.log.taken? place = some transition ∧
      machine.LeadsInto code transition state

/-- What is kept of executions that are paths of the program, said of the transitions taken. -/
structure Traces (knowledge : Knowledge) (machine : Machine) (code : Code) : Prop where
  /-- Each transition leads into the state of the next one. -/
  consecutive : ∀ id position first second,
    knowledge.log.taken? ⟨id, position⟩ = some first →
      knowledge.log.taken? ⟨id, position + 1⟩ = some second →
        machine.LeadsInto code first second.state
  /-- The first transition of an execution was taken where it may start. -/
  started : ∀ id execution first, knowledge.log.get? id = some execution →
    knowledge.log.taken? ⟨id, 0⟩ = some first →
      knowledge.SetsOut machine code execution.origin first.state
  /-- Each place recorded as leading into a state leads there. -/
  predecessor : ∀ state, ∀ place ∈ knowledge.predecessors.of state,
    ∃ transition, knowledge.log.taken? place = some transition ∧
      machine.LeadsInto code transition state
  /-- Executions that wait for their first decision hold one place for it. -/
  holdsOne : knowledge.log.HoldsOne
  /-- Each point that waits is to be tried in the state of the transition that called for it. -/
  waits : ∀ point ∈ knowledge.backlog.pendingAt point.state,
    ∃ transition, knowledge.log.taken? point.conflict = some transition ∧
      transition.state = point.state

end Knowledge

variable {machine moved : Machine} {code : Code} {knowledge later : Knowledge}

/-- A transition leads where it led once more states are numbered. -/
theorem Machine.LeadsInto.mono {transition : Transition} {state : StateId}
    (h : machine.LeadsInto code transition state) (hkept : machine.Keeps moved) :
    moved.LeadsInto code transition state := by
  obtain ⟨values, hvalues, hnext⟩ := h
  exact ⟨values, hkept _ _ hvalues, hkept _ _ hnext⟩

namespace Knowledge

/-- An execution may start where it could, if no transition is taken back. -/
theorem SetsOut.mono {origin : Option TransitionRef} {state : StateId}
    (h : knowledge.SetsOut machine code origin state) (hkept : machine.Keeps moved)
    (htaken : ∀ place transition, knowledge.log.taken? place = some transition →
      later.log.taken? place = some transition) :
    later.SetsOut moved code origin state := by
  cases origin with
  | none => exact hkept _ _ h
  | some place =>
    obtain ⟨transition, hplace, hstate⟩ := h
    exact ⟨transition, htaken place transition hplace, hstate⟩

/-- Executions that are paths stay so once more states are numbered. -/
theorem FollowsProgram.mono (h : knowledge.FollowsProgram machine code)
    (hkept : machine.Keeps moved) : knowledge.FollowsProgram moved code where
  consecutive id position first second hfirst hsecond :=
    (h.consecutive id position first second hfirst hsecond).mono hkept
  started id execution first hget hfirst :=
    (h.started id execution first hget hfirst).mono hkept fun _ _ hplace => hplace
  predecessor state place hplace := by
    obtain ⟨transition, htaken, hleads⟩ := h.predecessor state place hplace
    exact ⟨transition, htaken, hleads.mono hkept⟩

/-- Executions traced are paths of the program. -/
theorem Traces.followsProgram (h : knowledge.Traces machine code) :
    knowledge.FollowsProgram machine code where
  consecutive id position first second hfirst hsecond := by
    obtain ⟨htaken, hsame⟩ := h.holdsOne.taken?_of_transition? hsecond
    exact h.consecutive id position first second (hsame.trans hfirst) htaken
  started := h.started
  predecessor := h.predecessor

/-- Executions stay traced when what is known of them changes, but no transition is taken. -/
theorem Traces.congr (h : knowledge.Traces machine code) (hkept : machine.Keeps moved)
    (hlog : knowledge.log.Continues later.log)
    (htaken : ∀ place, later.log.taken? place = knowledge.log.taken? place)
    (hpredecessor : ∀ state, ∀ place ∈ later.predecessors.of state,
      place ∈ knowledge.predecessors.of state ∨
        ∃ transition, knowledge.log.taken? place = some transition ∧
          moved.LeadsInto code transition state)
    (hwaits : ∀ point ∈ later.backlog.pendingAt point.state,
      point ∈ knowledge.backlog.pendingAt point.state ∨
        ∃ transition, knowledge.log.taken? point.conflict = some transition ∧
          transition.state = point.state) :
    later.Traces moved code := by
  refine { consecutive := ?_, started := ?_, predecessor := ?_,
           holdsOne := hlog.holdsOne h.holdsOne, waits := ?_ }
  · intro id position first second hfirst hsecond
    rw [htaken] at hfirst hsecond
    exact (h.consecutive id position first second hfirst hsecond).mono hkept
  · intro id execution first hget hfirst
    obtain ⟨earlier, hearlier, horigin, -⟩ := hlog id execution hget
    rw [htaken] at hfirst
    rw [horigin]
    exact (h.started id earlier first hearlier hfirst).mono hkept
      fun place transition hplace => (htaken place).trans hplace
  · intro state place hplace
    rw [htaken]
    rcases hpredecessor state place hplace with hold | hnew
    · obtain ⟨transition, hat, hleads⟩ := h.predecessor state place hold
      exact ⟨transition, hat, hleads.mono hkept⟩
    · exact hnew
  · intro point hpoint
    rw [htaken]
    rcases hwaits point hpoint with hold | hnew
    · exact h.waits point hold
    · exact hnew

/-- What is learnt from executions traced calls for points in the states of their transitions. -/
theorem Traces.learns {reference : List Event} {waiting taken : List BacktrackPoint}
    (h : knowledge.Traces machine code) (hledger : knowledge.backlog.Ledger waiting taken)
    (hlearns : knowledge.Learns reference later) : later.Traces machine code := by
  obtain ⟨more, hmore, hadmitted⟩ := hlearns.ledger hledger
  refine h.congr (fun _ _ hstate => hstate) (hlearns.log_eq ▸ .refl _)
    (fun place => by rw [hlearns.log_eq])
    (fun state place hplace => Or.inl (hlearns.predecessors_eq ▸ hplace)) fun point hpoint => ?_
  rcases List.mem_append.mp (hmore.mem_waiting_iff.mpr hpoint) with hold | hnew
  · exact Or.inl (hledger.mem_waiting_iff.mp hold)
  · obtain ⟨transition, htaken, event, -, heq⟩ := hadmitted point hnew
    exact Or.inr ⟨transition, htaken, by rw [heq]; rfl⟩

/-- Before anything is executed there is nothing to trace. -/
theorem traces_registered (program : Program) (config : ExploreConfig) (machine : Machine)
    (code : Code) : (Search.registered program config).knowledge.Traces machine code where
  consecutive id position first second hfirst := by
    rw [Search.taken?_registered] at hfirst
    exact absurd hfirst (by simp)
  started id execution first _ hfirst := by
    rw [Search.taken?_registered] at hfirst
    exact absurd hfirst (by simp)
  predecessor state place hplace :=
    absurd hplace (by simp [Search.registered, Explorer.start, Knowledge.empty])
  holdsOne := by
    have hempty : (ExecutionLog.empty).HoldsOne := by
      intro id execution hget
      exact absurd hget (by simp [ExecutionLog.get?, ExecutionLog.empty])
    exact hempty.add rfl
  waits point hpoint :=
    absurd hpoint (by
      simp [Search.registered, Explorer.start, Knowledge.empty, Backlog.pendingAt, Backlog.empty])

end Knowledge

namespace Explorer

variable {σ φ : Type} [AccessFilter φ]

/-- Observing accesses continues the log. -/
theorem continues_observed (explorer : Explorer σ φ) (accesses : List Access) :
    explorer.knowledge.log.Continues (explorer.observed accesses).knowledge.log :=
  ExecutionLog.continues_modify _ _ _
    (fun execution => (execution.recordAll_same _ _).2.2.2) fun execution hfresh =>
      ⟨(execution.recordAll_same _ _).1.symm.trans hfresh, (execution.recordAll_same _ _).2.1⟩

/-- It leaves the executions traced. -/
theorem traces_observed {explorer : Explorer σ φ} (h : explorer.knowledge.Traces machine code)
    (accesses : List Access) : (explorer.observed accesses).knowledge.Traces machine code :=
  h.congr (fun _ _ hnumber => hnumber) (explorer.continues_observed accesses)
    (explorer.taken?_observed accesses) (fun _ _ => Or.inl) fun _ => Or.inl

end Explorer

namespace Search

variable {search : Search} {point : DecisionPoint} {waiting taken : List BacktrackPoint}

/-- A reduced search whose executions are paths of the program. -/
structure OnPath (search : Search) : Prop where
  /-- Only reachable states are numbered. -/
  explores : search.machine.Explores search.code
  /-- The executions are traced. -/
  traces : search.explorer.knowledge.Traces search.machine search.code
  /-- The last transition taken leads into the machine's state. -/
  last : ∀ transition, 0 < search.explorer.counter →
    search.explorer.knowledge.log.taken? ⟨search.explorer.current, search.explorer.counter - 1⟩ =
      some transition → search.machine.LeadsInto search.code transition search.machine.state
  /-- An execution that has made no decision may start in the machine's state. -/
  first : ∀ execution, search.explorer.counter = 0 →
    search.explorer.knowledge.log.get? search.explorer.current = some execution →
      search.explorer.knowledge.SetsOut search.machine search.code execution.origin
        search.machine.state

/-- Recording the due decision takes a transition where the execution has come to. -/
theorem OnPath.noted (h : search.OnPath) (hunderway : search.Underway point waiting taken)
    (due : Event) :
    (search.explorer.noted search.machine.view point.id due).knowledge.Traces search.machine
      search.code := by
  have htaken := hunderway.explorer.taken?_noted search.machine.view point.id due
  have hkept (place : TransitionRef) (transition : Transition)
      (hplace : search.explorer.knowledge.log.taken? place = some transition) :
      (search.explorer.noted search.machine.view point.id due).knowledge.log.taken? place =
        some transition :=
    hunderway.explorer.taken?_noted_of_taken? search.machine.view point.id due hplace
  have hlog : search.explorer.knowledge.log.Continues
      (search.explorer.noted search.machine.view point.id due).knowledge.log :=
    (ExecutionLog.continues_modify_take _ _ _).trans
      (ExecutionLog.continues_modify _ _ _ (fun _ => rfl) fun _ hfresh => ⟨hfresh, rfl⟩)
  refine { consecutive := ?_, started := ?_, predecessor := ?_,
           holdsOne := hlog.holdsOne h.traces.holdsOne, waits := ?_ }
  · intro id position first second hfirst hsecond
    rw [htaken] at hfirst hsecond
    split at hsecond
    · rename_i hplace
      obtain ⟨rfl, hposition⟩ := TransitionRef.mk.inj hplace
      rw [if_neg (by simp only [TransitionRef.mk.injEq]; omega)] at hfirst
      rw [← Option.some.inj hsecond]
      refine h.last first (by omega) ?_
      rw [← hposition]
      exact hfirst
    · split at hfirst
      · rename_i hplace
        obtain ⟨rfl, rfl⟩ := TransitionRef.mk.inj hplace
        have hbound := hunderway.explorer.lt_of_taken? hsecond
        omega
      · exact h.traces.consecutive id position first second hfirst hsecond
  · intro id execution first hget hfirst
    obtain ⟨earlier, hearlier, horigin, -⟩ := hlog id execution hget
    rw [htaken] at hfirst
    rw [horigin]
    refine Knowledge.SetsOut.mono ?_ (fun _ _ hstate => hstate) hkept
    split at hfirst
    · rename_i hplace
      obtain ⟨rfl, hposition⟩ := TransitionRef.mk.inj hplace
      rw [← Option.some.inj hfirst]
      exact h.first earlier hposition.symm hearlier
    · exact h.traces.started id earlier first hearlier hfirst
  · intro state place hplace
    rcases Explorer.mem_predecessors_noted.mp hplace with hold | ⟨rfl, hprevious⟩
    · obtain ⟨transition, hat, hleads⟩ := h.traces.predecessor state place hold
      exact ⟨transition, hkept place transition hat, hleads⟩
    · obtain ⟨transition, hat⟩ :=
        hunderway.explorer.taken_of_previousPlace? (Nat.le_refl _) hprevious
      unfold Explorer.previousPlace? at hprevious
      split at hprevious
      · exact absurd hprevious (by simp)
      · obtain rfl := Option.some.inj hprevious
        exact ⟨transition, hkept _ transition hat, h.last transition (by omega) hat⟩
  · intro waits hwaits
    obtain ⟨transition, hat, hstate⟩ := h.traces.waits waits hwaits
    exact ⟨transition, hkept _ transition hat, hstate⟩

/-- Weighing a decision keeps the executions traced. -/
theorem OnPath.weighed (h : search.OnPath) (hunderway : search.Underway point waiting taken)
    {due : Event} {weighed : Explorer Values PatternFilter}
    (hweighs : search.Weighs point due weighed) :
    weighed.knowledge.Traces search.machine search.code := by
  cases hweighs with
  | matched _ hlearns => exact h.traces.learns hunderway.ledger hlearns
  | recorded _ hlearns => exact (h.noted hunderway due).learns hunderway.ledger hlearns

/-- Executing the due event takes the machine to where its transition leads. -/
theorem OnPath.advanced (h : search.OnPath) (hunderway : search.Underway point waiting taken)
    {due : Event} (hdue : due ∈ search.code.events) (hrecorded : search.matchesState = false)
    (hweighs : search.Weighs point due (search.weighed point)) :
    (search.advanced point due).OnPath := by
  obtain ⟨decisions, -, -, hreducing⟩ := (hunderway.weighed hdue hweighs).underway
  obtain ⟨hcurrent, hcounter, -, -, htaken⟩ := hunderway.advanced_same hdue hrecorded hweighs
  have htraces := h.weighed hunderway hweighs
  have hkept : search.machine.Keeps (search.advanced point due).machine :=
    fun _ _ hstate => Machine.numbering_moveTo hstate _
  have hleads : (search.advanced point due).machine.LeadsInto search.code
      ⟨due, search.machine.state, some point.id⟩ (search.stepped due).state := by
    refine ⟨search.machine.values, hkept _ _ hunderway.machine.here, ?_⟩
    have hsettled := hunderway.machine.toNumbered.settled_moveTo
      (search.code.next due search.machine.values)
    have hhere := hsettled.here
    rwa [Machine.values_moveTo] at hhere
  have hlast : (search.advanced point due).explorer.knowledge.log.taken?
      ⟨(search.advanced point due).explorer.current,
        (search.advanced point due).explorer.counter - 1⟩ =
      some ⟨due, search.machine.state, some point.id⟩ := by
    rw [htaken, hcurrent, hcounter]
    exact if_pos rfl
  have hpositive : (search.advanced point due).explorer.counter ≠ 0 := by
    rw [hcounter]
    exact Nat.succ_ne_zero _
  refine
    { explores := h.explores.moveTo ((h.explores _ _ hunderway.machine.here).step hdue)
      traces := ?_
      last := fun transition _ hat => Option.some.inj (hlast.symm.trans hat) ▸ hleads
      first := fun _ hzero => absurd hzero hpositive }
  obtain ⟨predecessors, hentered⟩ :=
    (((search.weighed point).proceeded search.machine.state due).observed
      (search.accesses point.id due)).stateEntered_eq hreducing.reducing (search.stepped due).state
  have hobserved (place : TransitionRef) :
      (search.advanced point due).explorer.knowledge.log.taken? place =
        (search.weighed point).knowledge.log.taken? place := by
    simp only [Search.advanced, hentered]
    exact Explorer.taken?_observed _ _ place
  refine htraces.congr hkept ?_ hobserved (fun state place hplace => ?_) fun point hpoint => ?_
  · simp only [Search.advanced, hentered]
    exact Explorer.continues_observed _ _
  · rcases Explorer.mem_predecessors_stateEntered hplace with hold | ⟨rfl, -, rfl⟩
    · exact Or.inl hold
    · refine Or.inr ⟨_, (hobserved _).symm.trans ?_, hleads⟩
      simp only [Search.advanced, hentered] at hlast ⊢
      exact hlast
  · simp only [Search.advanced, hentered] at hpoint
    exact Or.inl hpoint

/-- A restart takes the machine to the state of the transition that called for it. -/
theorem OnPath.restartedAt (h : search.OnPath) (hunderway : search.Underway point waiting taken)
    {due : Event} (hdue : due ∈ search.code.events) {weighed : Explorer Values PatternFilter}
    (hweighs : search.Weighs point due weighed) {next : BacktrackPoint} {rest : Backlog}
    (hpop : weighed.knowledge.backlog.pop? = some (next, rest)) (values : Values) (isNew : Bool)
    (closed : List PointId) :
    (search.restartedAt weighed next rest values isNew closed).OnPath := by
  have htraces := h.weighed hunderway hweighs
  obtain ⟨more, hledger, -⟩ := (hunderway.weighed hdue hweighs).ledger
  obtain ⟨before, after, hsplit, hrest, -⟩ := hledger.pop? hpop
  obtain ⟨transition, hconflict, hstate⟩ :=
    htraces.waits next (hledger.mem_waiting_iff.mp (by simp [hsplit]))
  have htaken := weighed.taken?_restarted next rest
  have hlog : weighed.knowledge.log.Continues
      (weighed.knowledge.log.modify weighed.current Execution.release) :=
    ExecutionLog.continues_modify _ _ _ (fun _ => rfl) fun _ hfresh => ⟨hfresh, rfl⟩
  have hnext : (weighed.knowledge.log.modify weighed.current Execution.release).next =
      weighed.knowledge.log.next := Explorer.next_modify _ _ _
  refine
    { explores := h.explores
      traces :=
        { consecutive := ?_, started := ?_, predecessor := ?_
          holdsOne := (hlog.holdsOne htraces.holdsOne).add rfl, waits := ?_ }
      last := fun _ hcounter => absurd hcounter (Nat.lt_irrefl 0), first := ?_ }
  · intro id position first second hfirst hsecond
    exact htraces.consecutive id position first second ((htaken _).symm.trans hfirst)
      ((htaken _).symm.trans hsecond)
  · intro id execution first hget hfirst
    replace hfirst := (htaken _).symm.trans hfirst
    replace hget := (ExecutionLog.get?_add _ _ id).symm.trans hget
    rw [hnext] at hget
    split at hget
    · rename_i hlatest
      rw [ExecutionLog.taken?, hlatest, ExecutionLog.get?_next] at hfirst
      exact absurd hfirst (by simp)
    · obtain ⟨earlier, hearlier, horigin, -⟩ := hlog id execution hget
      rw [horigin]
      exact (htraces.started id earlier first hearlier hfirst).mono (fun _ _ hnumber => hnumber)
        fun place transition hplace => (htaken place).trans hplace
  · intro state place hplace
    obtain ⟨transition, hat, hleads⟩ := htraces.predecessor state place hplace
    exact ⟨transition, (htaken place).trans hat, hleads⟩
  · intro waits hwaits
    have hwaiting : waits ∈ before ++ after := hrest.mem_waiting_iff.mpr hwaits
    have hold : waits ∈ before ++ next :: after := by
      simp only [List.mem_append, List.mem_cons] at hwaiting ⊢
      tauto
    obtain ⟨transition, hat, hsame⟩ :=
      htraces.waits waits (hledger.mem_waiting_iff.mp (hsplit ▸ hold))
    exact ⟨transition, (htaken _).trans hat, hsame⟩
  · intro execution _ hget
    replace hget := (ExecutionLog.get?_add _ _ _).symm.trans hget
    rw [if_pos (by rw [hnext]; rfl)] at hget
    rw [← Option.some.inj hget]
    exact ⟨transition, (htaken _).trans hconflict, hstate⟩

/-- Whatever a reduced search comes to, its executions are paths there. -/
theorem Ready.onPath_of_reaches {next : DecisionPoint} (h : search.Ready point waiting taken)
    (hpath : search.adopt.OnPath) {later : Search}
    (hreaches : Reaches decide search point later next) :
    later.code = search.code ∧
      ∃ waiting taken, later.Ready next waiting taken ∧ later.adopt.OnPath := by
  refine hreaches.keeps (P := fun later next => later.code = search.code ∧
    ∃ waiting taken, later.Ready next waiting taken ∧ later.adopt.OnPath)
    ⟨rfl, waiting, taken, h, hpath⟩ fun between here _ hthere => ?_
  obtain ⟨hcode, waiting, taken, hready, honPath⟩ := hthere
  have hunderway := hready.underway
  have hturns := hready.turn
  generalize between.decide here = turn at hturns
  cases hturns with
  | fired hdue hat hrecorded hweighs hnew hafter =>
    have hlater := honPath.advanced hunderway hdue hrecorded hweighs
    exact ⟨hcode, _, _, hafter.ready, hafter.adopt_eq.symm ▸ hlater⟩
  | moved hdue hat hweighs hover hpop hschedule hafter hadopt hlater =>
    refine ⟨(congrArg Search.code hadopt).trans hcode, _, _, hlater, ?_⟩
    rw [hadopt]
    exact honPath.restartedAt hunderway hdue hweighs hpop _ _ _
  | complete | stopped => trivial

/-- A reduced search starts on the path of its first execution. -/
theorem onPath_start {program : Program} {config : ExploreConfig} {limit : Nat}
    (hstart : start program config limit = .ok search) (hreduce : config.stateReduction = true)
    (hevents : program.events ≠ []) : search.registerPoint.1.OnPath := by
  rw [registerPoint_start hstart hreduce hevents]
  obtain ⟨-, rfl⟩ := start_eq_ok_iff.mp hstart
  have hhere := (Machine.settled_start program.code.initial).here
  rw [Machine.values_start] at hhere
  refine
    { explores := Machine.explores_start program.code
      traces := Knowledge.traces_registered program config _ _
      last := fun _ hcounter => absurd hcounter (Nat.lt_irrefl 0), first := ?_ }
  intro execution _ hget
  obtain rfl := Option.some.inj hget
  exact hhere

/-- What is said of the executions of a search at any moment of it. -/
structure Recorded (search : Search) (code : Code) : Prop where
  /-- Different values make different states. -/
  machine : search.machine.Numbered
  /-- Only reachable states are numbered. -/
  explores : search.machine.Explores code
  /-- The executions recorded are paths of the program. -/
  follows : search.explorer.knowledge.FollowsProgram search.machine code

/-- Of the machine it depends on the numbers only. -/
theorem recorded_of_numbering_eq {machine : Machine} {code : Code}
    (hnumbered : machine.Numbered) (hexplores : machine.Explores code)
    (hfollows : search.explorer.knowledge.FollowsProgram machine code)
    (hsame : search.machine.numbering = machine.numbering) : search.Recorded code where
  machine := hnumbered.of_numbering_eq hsame
  explores := hexplores.of_numbering_eq hsame
  follows := hfollows.mono fun _ _ hnumber => hsame ▸ hnumber

/-- The explorer's answer to a decision restores kept snapshots only. -/
theorem restores_consult (search : Search) (point : DecisionPoint) :
    search.explorer.Restores search.machine.view (search.consult point) := by
  unfold consult
  split
  · exact search.explorer.restores_pathMatched _ _
  · exact search.explorer.restores_choiceAdvanced _ _

/-- The machine gives no number when it does what the explorer asks for after a decision. -/
theorem Ready.numbering_accept (h : search.Ready point waiting taken) :
    (search.accept (search.consult point)).machine.numbering = search.machine.numbering := by
  have hunderway := h.underway
  have hrestores := search.adopt.restores_consult point
  rw [h.consult_adopt] at hrestores
  refine Machine.numbering_foldl_obey fun values hrequest => ?_
  obtain ⟨state, hkept⟩ := hrestores.requested values hrequest
  refine ⟨state, ?_⟩
  rcases hrestores.kept state values hkept with hbefore | ⟨rfl, rfl⟩
  · exact hunderway.numbered_of_snapshot state values hbefore
  · exact hunderway.machine.here

/-- When the explorer moves on, the executions stay paths of the program. -/
theorem OnPath.movedOn (h : search.OnPath) (hunderway : search.Underway point waiting taken)
    {due : Event} (hdue : due ∈ search.code.events) {weighed : Explorer Values PatternFilter}
    (hweighs : search.Weighs point due weighed) (view : HostView Values) (last : DecisionPoint) :
    (weighed.moveOn view last).explorer.knowledge.FollowsProgram search.machine search.code := by
  have hweighed := hunderway.weighed hdue hweighs
  have hsnapshots (next : BacktrackPoint) (rest : Backlog)
      (hpop : weighed.knowledge.backlog.pop? = some (next, rest)) :
      next.state ∈ weighed.snapshots := by
    obtain ⟨-, ⟨values, hvalues, -⟩, -⟩ := hweighed.pop? hpop
    exact Std.ExtTreeMap.mem_iff_isSome_getElem?.mpr (by simp [hvalues])
  rcases weighed.moveOn_cases hsnapshots view last with
    ⟨-, -, hended⟩ | ⟨next, rest, hpop, -, hannounced⟩
  · rw [hended]
    exact (h.weighed hunderway hweighs).followsProgram
  · rw [hannounced]
    have hrestarted := h.restartedAt hunderway hdue hweighs hpop search.machine.values false []
    exact hrestarted.traces.followsProgram.mono fun _ _ hnumber => hnumber

/-- At every moment of a turn the executions are paths of the program. -/
theorem Ready.recorded (h : search.Ready point waiting taken) (hpath : search.adopt.OnPath)
    {done : List (ExecutionId × Firing)} {moment : Search}
    (hstands : search.Stands point done moment) : moment.Recorded search.code := by
  obtain ⟨due, hdue, hat, hweighs, hconsults⟩ := h.underway.consults
  have hnumbered := h.underway.machine.toNumbered
  have htraces := hpath.weighed h.underway hweighs
  have hobeyed := h.numbering_accept
  rw [h.consult_adopt] at hconsults
  cases hstands with
  | begins =>
    refine recorded_of_numbering_eq hnumbered hpath.explores ?_ rfl
    rw [← search.knowledge_adopt]
    exact hpath.traces.followsProgram
  | consulted hasks =>
    refine recorded_of_numbering_eq hnumbered hpath.explores ?_ hobeyed
    cases hconsults with
    | proceeds hrecorded houtcome hexplorer hid hcurrent =>
      simp only [accept, hexplorer]
      exact htraces.followsProgram
    | @movesOn houtcome last hknowledge =>
      simp only [accept, hknowledge]
      exact hpath.movedOn h.underway hdue hweighs _ last
  | @observing other hgoes seen rest hseen =>
    cases hconsults with
    | movesOn houtcome => exact absurd hgoes.2.1 houtcome
    | proceeds hrecorded houtcome hexplorer hid hcurrent =>
      obtain rfl : due = other := Option.some.inj (hcurrent.symm.trans hgoes.2.2)
      rw [hid] at hseen
      rw [hexplorer, h.underway.foldl_observed hdue hrecorded hweighs hseen]
      refine recorded_of_numbering_eq hnumbered hpath.explores ?_ hobeyed
      have hgoing : ((search.adopt.weighed point).proceeded search.adopt.machine.state
          due).knowledge.Traces search.adopt.machine search.adopt.code := htraces
      exact (Explorer.traces_observed hgoing _).followsProgram
  | @entered other hgoes moment hmoment =>
    -- between entering the state and the next turn only the next point is opened
    obtain ⟨hknowledge, -, hnumbering⟩ := moment.registerPoint_same
    have hturn := decide_of_goesAhead hgoes
    simp only [← hmoment] at hturn
    have hbegins : Reaches Search.decide search point search point := .start
    obtain ⟨hcode, waiting, taken, hready, honPath⟩ :=
      h.onPath_of_reaches hpath (hbegins.fired hturn)
    rw [← hcode]
    refine recorded_of_numbering_eq hready.underway.machine.toNumbered honPath.explores ?_
      hnumbering.symm
    rw [← hknowledge, ← knowledge_adopt]
    exact honPath.traces.followsProgram

/-- Before anything is executed there are no executions that could leave the program. -/
theorem recorded_of_registered {program : Program} {config : ExploreConfig}
    (hknowledge : search.explorer.knowledge = (registered program config).knowledge)
    (hnumbering : search.machine.numbering = (Machine.start program.code.initial).numbering) :
    search.Recorded program.code := by
  refine recorded_of_numbering_eq (Machine.settled_start program.code.initial).toNumbered
    (Machine.explores_start program.code) ?_ hnumbering
  rw [hknowledge]
  exact (Knowledge.traces_registered program config _ _).followsProgram

/-- Without events there is one moment between the registration of the first point and the end. -/
theorem Performs.eq_of_no_events {program : Program} {config : ExploreConfig} {limit : Nat}
    {done more : List (ExecutionId × Firing)} {later moment : Search} {next : DecisionPoint}
    (h : Performs Search.decide search.registerPoint.1 search.registerPoint.2 done later next)
    (hstands : later.Stands next more moment)
    (hstart : Search.start program config limit = .ok search) (hevents : program.events = []) :
    done = [] ∧ more = [] ∧ moment = search.registerPoint.1 := by
  obtain ⟨rfl, rfl, rfl⟩ := h.eq_of_ended (decide_of_no_events hstart hevents)
  have hsilent : ¬search.registerPoint.1.Asks search.registerPoint.2 := by
    simp [Asks, hasMore_of_no_events hstart hevents]
  exact ⟨rfl, hstands.eq_of_not_asks hsilent⟩

/-- At no moment of the search of a program without events is anything else known or numbered than
at the start. -/
theorem Meets.same_of_no_events {program : Program} {config : ExploreConfig} {limit : Nat}
    {moment : Search} (h : search.Meets moment) (hstart : start program config limit = .ok search)
    (hevents : program.events = []) :
    moment.explorer.knowledge = search.explorer.knowledge ∧
      moment.machine.numbering = search.machine.numbering := by
  obtain ⟨hknowledge, -, hnumbering⟩ := search.registerPoint_same
  cases h with
  | begins => exact ⟨rfl, rfl⟩
  | within hperforms hstands =>
    obtain ⟨-, -, rfl⟩ := hperforms.eq_of_no_events hstands hstart hevents
    exact ⟨hknowledge, hnumbering⟩
  | ends =>
    rw [explorer_explore_of_no_events hstart hevents, numbering_explore_of_no_events hstart hevents]
    exact ⟨hknowledge, hnumbering⟩

/-- With events there is a turn to which the moment belongs, except before the first point. -/
theorem Meets.stands {program : Program} {config : ExploreConfig} {limit : Nat} {moment : Search}
    (h : search.Meets moment) (hstart : start program config limit = .ok search)
    (hreduce : config.stateReduction = true) (hevents : program.events ≠ []) :
    moment = search ∨ ∃ done more later next,
      Performs Search.decide search.registerPoint.1 search.registerPoint.2 done later next ∧
        later.Stands next more moment := by
  cases h with
  | begins => exact Or.inl rfl
  | within hperforms hstands => exact Or.inr ⟨_, _, _, _, hperforms, hstands⟩
  | ends =>
    obtain ⟨later, next, hperforms, hstands⟩ := search.registerPoint.1.exists_stands_takeTurns
      search.registerPoint.2 search.registerPoint.1.decisionBound
    rw [explore_eq hstart hreduce hevents]
    exact Or.inr ⟨_, _, later, next, hperforms, hstands⟩

/-- At every moment of the reduced search of a program its executions are paths of the program. -/
theorem Meets.recorded {program : Program} {config : ExploreConfig} {limit : Nat} {moment : Search}
    (h : search.Meets moment) (hstart : start program config limit = .ok search)
    (hreduce : config.stateReduction = true) : moment.Recorded program.code := by
  have hinitial : search.explorer.knowledge = (registered program config).knowledge ∧
      search.machine.numbering = (Machine.start program.code.initial).numbering ∧
        search.registerPoint.1.code = program.code := by
    obtain ⟨-, rfl⟩ := start_eq_ok_iff.mp hstart
    exact ⟨rfl, rfl, rfl⟩
  obtain ⟨hknowledge, hnumbering, hcode⟩ := hinitial
  by_cases hevents : program.events = []
  · obtain ⟨hknown, hnumbered⟩ := h.same_of_no_events hstart hevents
    exact recorded_of_registered (hknown.trans hknowledge) (hnumbered.trans hnumbering)
  · rcases h.stands hstart hreduce hevents with
      rfl | ⟨done, more, later, next, hperforms, hstands⟩
    · exact recorded_of_registered hknowledge hnumbering
    · have hunderway := underway_start hstart hreduce hevents
      have hpath := onPath_start hstart hreduce hevents
      rw [← hunderway.adopt_eq] at hpath
      obtain ⟨hsame, waiting, taken, hready, honPath⟩ :=
        hunderway.ready.onPath_of_reaches hpath hperforms.reaches
      rw [← hcode, ← hsame]
      exact hready.recorded honPath hstands

/-- At every moment of the reduced search of a program, its executions are paths of the program, it
has numbered reachable states only, and no more of them than the exhaustive search. -/
theorem executions_follow_program {program : Program} {config : ExploreConfig} {limit : Nat}
    (hstart : start program config limit = .ok search)
    (hreduce : config.stateReduction = true) :
    ∀ moment, search.Meets moment →
      moment.explorer.knowledge.FollowsProgram moment.machine program.code ∧
      moment.machine.Numbered ∧
      (∀ values ∈ moment.machine.numbering, program.code.Reachable values) ∧
      ∀ exhaustive other, start program exhaustive 0 = .ok other →
        exhaustive.stateReduction = false →
          ∃ whole, other.explore = (whole, .ok .complete) ∧
            (∀ values ∈ moment.machine.numbering, values ∈ whole.machine.numbering) ∧
            moment.machine.statesSeen ≤ whole.machine.statesSeen := by
  intro moment hmeets
  have hrecorded := hmeets.recorded hstart hreduce
  have hreachable (values : Values) (hvalues : values ∈ moment.machine.numbering) :
      program.code.Reachable values := by
    obtain ⟨state, hstate⟩ := Option.isSome_iff_exists.mp
      (Std.ExtTreeMap.mem_iff_isSome_getElem?.mp hvalues)
    exact hrecorded.explores values state hstate
  refine ⟨hrecorded.follows, hrecorded.machine, hreachable, ?_⟩
  intro exhaustive other hother hplain
  obtain ⟨whole, hwhole, hnumbered⟩ := exhaustive_numbers_reachable hother hplain
  refine ⟨whole, hwhole, fun values hvalues => (hnumbered values).mpr (hreachable values hvalues),
    ?_⟩
  rw [Machine.statesSeen_eq hnumbered]
  exact hrecorded.explores.statesSeen_le

/-- Two events that write one variable are executed in turn; after three of them and a restart the
first is known to lead from the initial state into the second one. -/
theorem executions_follow_program_twoWriters :
    ∃ search, start twoWriters {} 0 = .ok search ∧
      let later := (search.registerPoint.1.takeTurns Search.decide 4 search.registerPoint.2).1
      later.machine.statesSeen = 3 ∧
        later.explorer.knowledge.FollowsProgram later.machine twoWriters.code ∧
        ∃ first second, later.explorer.knowledge.log.transition? ⟨⟨0⟩, 0⟩ = some first ∧
          later.explorer.knowledge.log.transition? ⟨⟨0⟩, 1⟩ = some second ∧
          second.state = ⟨2⟩ ∧ later.machine.LeadsInto twoWriters.code first second.state := by
  have hstart : start twoWriters {} 0 = .ok (initial twoWriters {} 0) :=
    start_eq_ok_iff.mpr ⟨by decide +kernel, rfl⟩
  refine ⟨_, hstart, ?_⟩
  intro later
  obtain ⟨hfollows, -⟩ := executions_follow_program hstart rfl later (meets_takeTurns _ 4)
  have hseen : later.machine.statesSeen = 3 := by decide +kernel
  have hfirst : later.explorer.knowledge.log.transition? ⟨⟨0⟩, 0⟩ =
      some ⟨⟨0⟩, ⟨1⟩, some ⟨1⟩⟩ := by
    decide +kernel
  have hsecond : later.explorer.knowledge.log.transition? ⟨⟨0⟩, 1⟩ =
      some ⟨⟨1⟩, ⟨2⟩, some ⟨2⟩⟩ := by
    decide +kernel
  exact ⟨hseen, hfollows, _, _, hfirst, hsecond, rfl,
    hfollows.consecutive ⟨0⟩ 0 _ _ hfirst hsecond⟩

end Search

end EventOrder
