import EventOrder.Proofs.Search.Progress

/-!
# Runs of a reduced search

A run is a sequence of turns. What is said about a run is read off its turns: which configurations
it comes to, which events it executes in which execution, and which backtrack points it takes off
the backlog, in that order.
-/

namespace EventOrder

/-- Whether a turn that does not end the search leaves a configuration with the property. -/
def Turn.Leaves {κ : Type} (P : Search → κ → Prop) : Turn κ → Prop
  | .fired _ search next | .moved search next => P search next
  | .ended _ _ => True

namespace Search

variable {κ : Type}

/-- The configurations that turns lead to from a configuration. -/
inductive Reaches (turn : Search → κ → Turn κ) (search : Search) (next : κ) : Search → κ → Prop
  | start : Reaches turn search next search next
  | fired {later last : Search} {between rest : κ} {firing : Firing}
      (hreaches : Reaches turn search next later between)
      (hturn : turn later between = .fired firing last rest) : Reaches turn search next last rest
  | moved {later last : Search} {between rest : κ}
      (hreaches : Reaches turn search next later between)
      (hturn : turn later between = .moved last rest) : Reaches turn search next last rest

/-- What holds at first and is left by every turn holds wherever the turns lead. -/
theorem Reaches.keeps {P : Search → κ → Prop} {turn : Search → κ → Turn κ} {search later : Search}
    {next rest : κ} (h : Reaches turn search next later rest) (hfirst : P search next)
    (hleaves : ∀ between here, Reaches turn search next between here → P between here →
      (turn between here).Leaves P) : P later rest := by
  induction h with
  | start => exact hfirst
  | fired hbefore hturn ih | moved hbefore hturn ih =>
    have hlast := hleaves _ _ hbefore ih
    rw [hturn] at hlast
    exact hlast

/-- Nothing else is reached when the first turn ends the search. -/
theorem Reaches.eq_of_ended {turn : Search → κ → Turn κ} {search later last : Search}
    {next rest : κ} {outcome : Except ExplorationError Outcome}
    (h : Reaches turn search next later rest) (hended : turn search next = .ended last outcome) :
    later = search ∧ rest = next := by
  refine h.keeps (P := fun later rest => later = search ∧ rest = next) ⟨rfl, rfl⟩
    fun between here _ hthere => ?_
  obtain ⟨rfl, rfl⟩ := hthere
  rw [hended]
  trivial

/-- The events executed in so many turns, each with its state and with the execution that it was
executed in. -/
def firings (turn : Search → κ → Turn κ) : Nat → Search → κ → List (ExecutionId × Firing)
  | 0, _, _ => []
  | turns + 1, search, next =>
    match turn search next with
    | .fired firing search next =>
      (search.explorer.current, firing) :: firings turn turns search next
    | .moved search next => firings turn turns search next
    | .ended _ _ => []

/-- The backtrack points that so many turns of a reduced search take off the backlog. -/
def popped : Nat → Search → DecisionPoint → List BacktrackPoint
  | 0, _, _ => []
  | turns + 1, search, point =>
    match search.decide point with
    | .fired _ search point => popped turns search point
    | .moved later next =>
      ((search.adopt.weighed point).knowledge.backlog.pop?.map Prod.fst).toList ++
        popped turns later next
    | .ended _ _ => []

/-- The backtrack points that the reduced search of a program takes off the backlog. -/
def backtracks (search : Search) : List BacktrackPoint :=
  let (search, point) := search.registerPoint
  search.popped search.decisionBound point

/-- The events that the reduced search of a program executes. -/
def executions (search : Search) : List (ExecutionId × Firing) :=
  let (search, point) := search.registerPoint
  firings decide search.decisionBound search point

variable {search : Search} {point : DecisionPoint} {waiting taken : List BacktrackPoint}

/-- A turn of a reduced search, its announced restart adopted, and what it leaves. -/
inductive Turns (search : Search) (point : DecisionPoint) (waiting taken : List BacktrackPoint) :
    Turn DecisionPoint → Prop
  /-- The event that is due is executed. -/
  | fired {due : Event} (hdue : due ∈ search.code.events)
      (hat : search.explorer.schedule.eventAt? search.explorer.counter = some due)
      (hrecorded : search.matchesState = false)
      (hweighs : search.Weighs point due (search.weighed point))
      (hnew : 0 < search.explorer.counter → search.machine.isNew = false →
        search.explorer.coversAllEvents search.machine.state = false)
      {next : DecisionPoint} {more : List BacktrackPoint}
      (hafter : (search.advanced point due).Underway next (waiting ++ more) taken) :
      Turns search point waiting taken
        (.fired ⟨search.machine.state, due⟩ (search.advanced point due) next)
  /-- The search starts over at the next backtrack point. -/
  | moved {due : Event} (hdue : due ∈ search.code.events)
      (hat : search.explorer.schedule.eventAt? search.explorer.counter = some due)
      (hweighs : search.Weighs point due (search.weighed point)) (hover : search.IsOver)
      {popped : BacktrackPoint} {rest : Backlog}
      (hpop : (search.weighed point).knowledge.backlog.pop? = some (popped, rest))
      (hschedule : popped.schedule.Perm search.code.events) {values : Values} {isNew : Bool}
      {closed : List PointId} {next : DecisionPoint} {remaining : List BacktrackPoint}
      (hafter : (search.restartedAt (search.weighed point) popped rest values isNew closed).Underway
        next remaining (taken ++ [popped])) {later : Search}
      (hadopt : later.adopt =
        search.restartedAt (search.weighed point) popped rest values isNew closed)
      (hready : later.Ready next remaining (taken ++ [popped])) :
      Turns search point waiting taken (.moved later next)
  /-- No backtrack point is left. -/
  | complete {due : Event} (hdue : due ∈ search.code.events)
      (hat : search.explorer.schedule.eventAt? search.explorer.counter = some due)
      (hweighs : search.Weighs point due (search.weighed point)) (hover : search.IsOver)
      (hpop : (search.weighed point).knowledge.backlog.pop? = none) {last : Search}
      (hknowledge : last.explorer.knowledge = (search.weighed point).knowledge)
      (hhistory : last.explorer.history = (search.weighed point).history)
      (hmachine : last.machine = search.machine) (hexecuted : last.executed = search.executed) :
      Turns search point waiting taken (.ended last (.ok .complete))
  /-- As many events were executed as may be. -/
  | stopped {last : Search} (hlimit : search.atLimit = true) (hadopt : last.adopt = search) :
      Turns search point waiting taken (.ended last (.ok .limitReached))

/-- What a turn of a reduced search comes to. -/
theorem Ready.turn (h : search.Ready point waiting taken) :
    search.adopt.Turns point waiting taken (search.decide point) := by
  have hunderway := h.underway
  cases hlimit : search.atLimit with
  | true =>
    have hopen : (search.machine.closed.contains point.id || !point.hasMore) = false :=
      hunderway.isOpen
    have hstops : search.decide point = .ended search (.ok .limitReached) := by
      simp [decide, hopen, hlimit]
    rw [hstops]
    exact .stopped hlimit rfl
  | false =>
    obtain ⟨due, hdue, hat, hdecides⟩ := hunderway.decide hlimit
    rw [h.decide_adopt hlimit]
    generalize search.adopt.decide point = turn at hdecides
    cases hdecides with
    | goes hrecorded hweighs hnew hdepth next =>
      obtain ⟨more, hafter⟩ := hunderway.advanced hdue hrecorded hweighs
      exact .fired hdue hat hrecorded hweighs hnew hafter
    | restarts hweighs hover hpop hvalues hadopt hannounced =>
      obtain ⟨remaining, hafter⟩ := hunderway.restartedAt hdue hweighs hpop hvalues _
      obtain ⟨hschedule, -, -⟩ := (hunderway.weighed hdue hweighs).pop? hpop
      exact .moved hdue hat hweighs hover hpop hschedule hafter hadopt
        ⟨fun _ => hannounced, hadopt ▸ hafter⟩
    | completes hweighs hover hpop hknowledge hhistory hmachine hexecuted =>
      exact .complete hdue hat hweighs hover hpop hknowledge hhistory hmachine hexecuted

/-- Whatever a reduced search comes to, it is ready there. -/
theorem Ready.of_reaches (h : search.Ready point waiting taken) {later : Search}
    {next : DecisionPoint} (hreaches : Reaches Search.decide search point later next) :
    ∃ waiting taken, later.Ready next waiting taken := by
  refine hreaches.keeps (P := fun later next => ∃ waiting taken, later.Ready next waiting taken)
    ⟨waiting, taken, h⟩ fun between here _ hthere => ?_
  obtain ⟨waiting, taken, hready⟩ := hthere
  have hturns := hready.turn
  generalize between.decide here = turn at hturns
  cases hturns with
  | fired _ _ _ _ _ hafter => exact ⟨_, _, hafter.ready⟩
  | moved _ _ _ _ _ _ _ _ hlater => exact ⟨_, _, hlater⟩
  | complete | stopped => trivial

/-- How many more events the execution of a name can execute when executions make no more decisions
than so many: none when it is over, what is left of its decisions when it is under way, and all of
them when it is yet to come. -/
def roomLeft (search : Search) (depth : Nat) (execution : ExecutionId) : Nat :=
  if execution.number < search.explorer.current.number then 0
  else if execution = search.explorer.current then depth - search.explorer.counter
  else depth

/-- The events left to an execution are no more than its decisions. -/
theorem roomLeft_le (search : Search) (depth : Nat) (execution : ExecutionId) :
    search.roomLeft depth execution ≤ depth := by
  unfold roomLeft
  split
  · exact Nat.zero_le _
  · split
    · exact Nat.sub_le _ _
    · exact Nat.le_refl _

/-- One more event of the execution under way uses up one of those left to it. -/
private theorem roomLeft_of_counter_succ {later : Search} {depth : Nat}
    (hcurrent : later.explorer.current = search.explorer.current)
    (hcounter : later.explorer.counter = search.explorer.counter + 1)
    (hbound : later.explorer.counter ≤ depth) (execution : ExecutionId) :
    later.roomLeft depth execution + (if search.explorer.current = execution then 1 else 0) =
      search.roomLeft depth execution := by
  simp only [roomLeft, hcurrent]
  by_cases hsame : search.explorer.current = execution
  · subst hsame
    simp only [Nat.lt_irrefl, if_false, if_true]
    omega
  · have hother : ¬execution = search.explorer.current := fun heq => hsame heq.symm
    simp only [if_neg hsame, if_neg hother, Nat.add_zero]

/-- When the next execution starts no more is left to any of them. -/
private theorem roomLeft_le_of_current_succ {later : Search}
    (hcurrent : later.explorer.current = ⟨search.explorer.current.number + 1⟩) (depth : Nat)
    (execution : ExecutionId) :
    later.roomLeft depth execution ≤ search.roomLeft depth execution := by
  by_cases hover : execution.number < search.explorer.current.number + 1
  · simp only [roomLeft, hcurrent, if_pos hover]
    exact Nat.zero_le _
  · have hother : execution ≠ search.explorer.current := by
      rintro rfl
      omega
    have hroom : search.roomLeft depth execution = depth := by
      rw [roomLeft, if_neg (by omega), if_neg hother]
    rw [hroom]
    exact roomLeft_le later depth execution

/-- When no execution makes more decisions than so many, none executes more events, and all together
execute no more than this for each execution that is started. -/
theorem Ready.firings_le_of_depth (h : search.Ready point waiting taken) {origin : Search}
    {first : DecisionPoint} (hreaches : Reaches Search.decide origin first search point)
    {depth : Nat} (hdepth : ∀ later next, Reaches Search.decide origin first later next →
      later.adopt.explorer.counter ≤ depth) (turns : Nat) :
    (firings decide turns search point).length ≤
        depth * (popped turns search point).length + (depth - search.adopt.explorer.counter) ∧
      ∀ execution, ((firings decide turns search point).map Prod.fst).count execution ≤
        search.adopt.roomLeft depth execution := by
  induction turns generalizing search point waiting taken with
  | zero => exact ⟨Nat.zero_le _, fun execution => by simp [firings]⟩
  | succ turns ih =>
    have hunderway := h.underway
    have hturn := h.turn
    have hfired {firing : Firing} {later : Search} {next : DecisionPoint} :
        search.decide point = .fired firing later next →
          Reaches Search.decide origin first later next := hreaches.fired
    have hmoved {later : Search} {next : DecisionPoint} :
        search.decide point = .moved later next →
          Reaches Search.decide origin first later next := hreaches.moved
    simp only [firings, popped]
    generalize search.decide point = turn at hturn hfired hmoved
    cases hturn with
    | @fired due hdue hat hrecorded hweighs hnew next more hafter =>
      have hthen := hfired rfl
      have hbound := hdepth _ _ hthen
      obtain ⟨hcurrent, hcounter, -⟩ := hunderway.advanced_same hdue hrecorded hweighs
      obtain ⟨hlength, hcount⟩ := ih hafter.ready hthen
      rw [hafter.adopt_eq, hcounter] at hbound hlength
      rw [hafter.adopt_eq] at hcount
      refine ⟨?_, fun execution => ?_⟩
      · simp only [List.length_cons]
        omega
      · rw [← roomLeft_of_counter_succ hcurrent hcounter (hcounter ▸ hbound) execution]
        simp only [List.map_cons, List.count_cons, beq_iff_eq, hcurrent]
        exact Nat.add_le_add_right (hcount execution) _
    | @moved due hdue hat hweighs hover popped rest hpop hschedule values isNew closed next
        remaining hafter later hadopt hready =>
      obtain ⟨hcurrent, hcounter, -⟩ :=
        hunderway.restartedAt_same hdue hweighs popped rest values isNew closed
      obtain ⟨hlength, hcount⟩ := ih hready (hmoved rfl)
      rw [hadopt] at hcount
      rw [hadopt, hcounter, Nat.sub_zero] at hlength
      refine ⟨?_, fun execution => ?_⟩
      · simp only [hpop, Option.map_some, Option.toList_some, List.singleton_append,
          List.length_cons, Nat.mul_succ]
        omega
      · exact (hcount execution).trans (roomLeft_le_of_current_succ hcurrent depth execution)
    | complete => exact ⟨Nat.zero_le _, fun execution => by simp⟩
    | stopped => exact ⟨Nat.zero_le _, fun execution => by simp⟩

/-- The reduced search of a program runs the turns that its number of states allows. -/
theorem explore_eq {program : Program} {config : ExploreConfig} {limit : Nat}
    (hstart : start program config limit = .ok search) (hreduce : config.stateReduction = true)
    (hevents : program.events ≠ []) :
    search.explore = search.registerPoint.1.takeTurns Search.decide
      search.registerPoint.1.decisionBound search.registerPoint.2 := by
  have hreducing := (underway_start hstart hreduce hevents).explorer.reducing
  simp only [explore, hreducing, if_true, reduced]

/-- Two events that write different values to one variable. -/
def twoWriters : Program where
  name := "two writers"
  declarations := [⟨"x", ⟨1⟩, 0⟩]
  events := [⟨"one", [.write "x" 1]⟩, ⟨"two", [.write "x" 2]⟩]
  filter := .empty

/-- Events of which the first reads a flag, two move a dial and a lamp on, and the last one resets
the flag and moves the dial on. -/
def lookAndTurn : Program where
  name := "look and turn"
  declarations := [⟨"dial", ⟨1⟩, 0⟩, ⟨"lamp", ⟨1⟩, 0⟩, ⟨"flag", ⟨1⟩, 0⟩]
  events := [⟨"look", [.read "flag"]⟩, ⟨"turn", [.increment "dial" 3]⟩,
    ⟨"blink", [.increment "lamp" 2]⟩, ⟨"set", [.write "flag" 0, .increment "dial" 3]⟩]
  filter := .empty

end Search

end EventOrder
