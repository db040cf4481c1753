import EventOrder.Proofs.Search.Counting

/-!
# What a limit leaves of a search

A limit on the number of events cuts a search short and changes nothing before that: up to the limit
the search takes the turns that it would take without one. The two loops look at the limit at
different moments. A reduced search looks at it before it asks whether anything is left to be done,
an exhaustive one only when an event is about to be executed; so at the exact limit the one is
stopped and the other one is still found complete.
-/

namespace EventOrder

/-- A turn as it would be taken by a search with another limit. -/
def Turn.withLimit {κ : Type} (limit : Nat) : Turn κ → Turn κ
  | .fired firing search next => .fired firing { search with limit } next
  | .moved search next => .moved { search with limit } next
  | .ended search outcome => .ended { search with limit } outcome

/-- Whether an event is executed in a turn. -/
def Turn.isFired {κ : Type} : Turn κ → Bool
  | .fired _ _ _ => true
  | .moved _ _ => false
  | .ended _ _ => false

namespace Search

variable {κ : Type} {search : Search} {limit : Nat} {point : DecisionPoint}
  {waiting taken : List BacktrackPoint}

/-- The search with another limit that is otherwise the same. -/
def withLimit (search : Search) (limit : Nat) : Search := { search with limit }

/-- A search that has executed fewer events than its limit goes on. -/
theorem atLimit_of_lt (hbelow : search.executed < limit) :
    (search.withLimit limit).atLimit = false := by
  have hopen : ¬limit ≤ search.executed := Nat.not_le.mpr hbelow
  simp [atLimit, withLimit, hopen]

/-- A search that has executed as many is stopped. -/
theorem atLimit_of_le (hpositive : 0 < limit) (hreached : limit ≤ search.executed) :
    (search.withLimit limit).atLimit = true := by
  simp [atLimit, withLimit, hpositive, hreached]

/-- How a search ends that is complete only if so many events may be executed. -/
def endsWithin (needed limit : Nat) : Outcome :=
  if needed ≤ limit then .complete else .limitReached

/-- What a turn counts. The limit stays as it is. -/
inductive CountsTurn (search : Search) : Turn κ → Prop
  /-- Executing an event is counted. -/
  | fired {firing : Firing} {later : Search} {next : κ} (hlimit : later.limit = search.limit)
      (hexecuted : later.executed = search.executed + 1) :
      CountsTurn search (.fired firing later next)
  /-- Moving the machine is not. -/
  | moved {later : Search} {next : κ} (hlimit : later.limit = search.limit)
      (hexecuted : later.executed = search.executed) : CountsTurn search (.moved later next)
  /-- Nor is the end of the search. -/
  | ended {last : Search} {outcome : Except ExplorationError Outcome}
      (hlimit : last.limit = search.limit) (hexecuted : last.executed = search.executed) :
      CountsTurn search (.ended last outcome)

/-- What a limit makes of a turn. When the loop looks at it `early`, it stops at the limit in any
case, and else only when an event would be executed. -/
inductive Limits (search : Search) (limit : Nat) (early : Bool) (turn : Turn κ) : Turn κ → Prop
  /-- Below the limit it changes nothing. -/
  | below (hbelow : search.executed < limit) : Limits search limit early turn (turn.withLimit limit)
  /-- At the limit it stops the search. -/
  | stops (hreached : limit ≤ search.executed) (hstops : early = true ∨ turn.isFired = true) :
      Limits search limit early turn (.ended (search.withLimit limit) (.ok .limitReached))
  /-- At the limit a loop that looks late goes on as long as it executes nothing. -/
  | late (hreached : limit ≤ search.executed) (hlate : early = false)
      (hidle : turn.isFired = false) : Limits search limit early turn (turn.withLimit limit)

/-- A run that is complete without a limit is cut short by one: it executes the events of the whole
run up to the limit and then is stopped, unless there are no more. A loop that looks at the limit
early has to have one event to spare to be complete. -/
theorem takeTurns_withLimit {turn : Search → κ → Turn κ} (early : Bool) {origin : Search}
    {first : κ}
    (hlimits : ∀ later next, Reaches turn origin first later next →
      Limits later limit early (turn later next) (turn (later.withLimit limit) next))
    (hcounts : ∀ (later : Search) (next : κ), later.CountsTurn (turn later next)) {next : κ}
    (hreaches : Reaches turn origin first search next) {turns : Nat} {final : Search}
    (hrun : search.takeTurns turn turns next = (final, .ok .complete))
    (hbound : search.executed ≤ limit) :
    firings turn turns (search.withLimit limit) next =
        (firings turn turns search next).take (limit - search.executed) ∧
      (takeTurns turn turns (search.withLimit limit) next).2 =
        .ok (endsWithin (search.executed + (firings turn turns search next).length + early.toNat)
          limit) := by
  induction turns generalizing search next with
  | zero => simp [takeTurns] at hrun
  | succ turns ih =>
    have hcount := hcounts search next
    have hlimit := hlimits search next hreaches
    simp only [takeTurns, firings] at hrun ⊢
    generalize hturn : turn search next = taken at hcount hlimit hrun ⊢
    generalize turn (search.withLimit limit) next = limited at hlimit ⊢
    cases hlimit with
    | below hbelow =>
      cases hcount with
      | @fired firing later rest _ hexecuted =>
        obtain ⟨hfirings, houtcome⟩ := ih (hreaches.fired hturn) hrun (by omega)
        have hleft : limit - search.executed = (limit - later.executed) + 1 := by omega
        refine ⟨?_, ?_⟩
        · simp only [Turn.withLimit, hleft, List.take_succ_cons]
          exact congrArg _ hfirings
        · simp only [Turn.withLimit, List.length_cons]
          rw [show search.executed + ((firings turn turns later rest).length + 1) =
            later.executed + (firings turn turns later rest).length by omega]
          exact houtcome
      | @moved later rest _ hexecuted =>
        obtain ⟨hfirings, houtcome⟩ := ih (hreaches.moved hturn) hrun (by omega)
        rw [hexecuted] at hfirings houtcome
        exact ⟨hfirings, houtcome⟩
      | ended =>
        obtain ⟨rfl, rfl⟩ := Prod.mk.inj hrun
        have hspare : early.toNat ≤ 1 := by cases early <;> decide
        refine ⟨by simp [Turn.withLimit], ?_⟩
        rw [endsWithin, if_pos (by rw [List.length_nil]; omega)]
        rfl
    | stops hreached hstops =>
      have hnothing : limit - search.executed = 0 := by omega
      refine ⟨by simp [hnothing], ?_⟩
      rw [endsWithin, if_neg]
      rcases hstops with rfl | hfires
      · simp only [Bool.toNat_true]
        omega
      · cases hcount with
        | fired _ hexecuted =>
          simp only [List.length_cons]
          omega
        | moved | ended => exact absurd hfires (by simp [Turn.isFired])
    | late hreached hlate hidle =>
      cases hcount with
      | fired => exact absurd hidle (by simp [Turn.isFired])
      | @moved later rest _ hexecuted =>
        obtain ⟨hfirings, houtcome⟩ := ih (hreaches.moved hturn) hrun (by omega)
        rw [hexecuted] at hfirings houtcome
        exact ⟨hfirings, houtcome⟩
      | ended =>
        obtain ⟨rfl, rfl⟩ := Prod.mk.inj hrun
        refine ⟨by simp [Turn.withLimit], ?_⟩
        rw [endsWithin, hlate, if_pos (by simpa using hbound)]
        rfl

/-- A turn of a reduced search executes one event or none, and keeps the limit. -/
theorem countsTurn_decide (search : Search) (point : DecisionPoint) :
    search.CountsTurn (search.decide point) := by
  unfold decide
  split
  · exact .ended rfl rfl
  · split
    · exact .ended rfl rfl
    · dsimp only
      split
      · exact .ended rfl rfl
      · exact .ended rfl rfl
      · exact .moved rfl rfl
      · unfold fire
        split
        · exact .ended rfl rfl
        · exact .fired rfl rfl

/-- So does a turn of an exhaustive search. -/
theorem countsTurn_expand (search : Search) (frontier : Frontier) :
    search.CountsTurn (search.expand frontier) := by
  unfold expand
  split
  · unfold expandNext
    split
    · exact .ended rfl rfl
    · exact .moved rfl rfl
  · split
    · exact .ended rfl rfl
    · unfold branch
      dsimp only
      split
      · exact .ended rfl rfl
      · exact .fired rfl rfl

/-- A decision does not depend on the limit before it is reached. -/
theorem decide_withLimit {point : DecisionPoint} (hopen : search.atLimit = false)
    (hlimited : (search.withLimit limit).atLimit = false) :
    (search.withLimit limit).decide point = (search.decide point).withLimit limit := by
  have hconsult : (search.withLimit limit).consult point = search.consult point := rfl
  simp only [decide, hopen, hlimited, hconsult, Bool.false_eq_true, if_false]
  by_cases hclosed : (search.machine.closed.contains point.id || !point.hasMore) = true
  · have hsame : ((search.withLimit limit).machine.closed.contains point.id ||
        !point.hasMore) = true := hclosed
    rw [if_pos hclosed, if_pos hsame]
    rfl
  · have hsame : ¬((search.withLimit limit).machine.closed.contains point.id ||
        !point.hasMore) = true := hclosed
    rw [if_neg hclosed, if_neg hsame]
    cases (search.consult point).outcome with
    | error error => rfl
    | ok flow =>
      cases flow with
      | finished => rfl
      | restarted => rfl
      | proceed =>
        simp only [fire]
        cases (search.consult point).point.current <;> rfl

/-- Without anything left to execute in a state, the limit does not matter. -/
theorem expand_withLimit_of_nil (search : Search) (limit : Nat) {frontier : Frontier}
    (hevents : frontier.events = []) :
    (search.withLimit limit).expand frontier = (search.expand frontier).withLimit limit ∧
      (search.expand frontier).isFired = false := by
  simp only [expand, hevents]
  cases frontier.pending <;> exact ⟨rfl, rfl⟩

/-- Executing an event in the state under expansion does not depend on the limit. -/
theorem branch_withLimit (hreducing : search.explorer.reducing = false) (limit : Nat)
    (frontier : Frontier) (event : Event) (events : List Event) :
    (search.withLimit limit).branch frontier event events =
        (search.branch frontier event events).withLimit limit ∧
      (search.branch frontier event events).isFired = true := by
  have hhere : (search.moveTo frontier.values).explorer.reducing = false := hreducing
  have hlimited : ((search.withLimit limit).moveTo frontier.values).explorer.reducing = false :=
    hreducing
  simp only [branch, Explorer.choiceAdvanced_of_not_reducing hhere,
    Explorer.choiceAdvanced_of_not_reducing hlimited]
  exact ⟨rfl, rfl⟩

/-- A reduced search looks at the limit early. -/
theorem Ready.limits (h : search.Ready point waiting taken) (hpositive : 0 < limit)
    (hunlimited : search.limit = 0) :
    search.Limits limit true (search.decide point) ((search.withLimit limit).decide point) := by
  rcases Nat.lt_or_ge search.executed limit with hbelow | hreached
  · have hopen : search.atLimit = false := by simp [atLimit, hunlimited]
    rw [decide_withLimit hopen (atLimit_of_lt hbelow)]
    exact .below hbelow
  · have hopen : ((search.withLimit limit).machine.closed.contains point.id ||
        !point.hasMore) = false := h.underway.isOpen
    have hstops : (search.withLimit limit).decide point =
        .ended (search.withLimit limit) (.ok .limitReached) := by
      simp [decide, hopen, atLimit_of_le hpositive hreached]
    rw [hstops]
    exact .stops hreached (Or.inl rfl)

/-- An exhaustive search looks at it late. -/
theorem limits_expand (hreducing : search.explorer.reducing = false) (hpositive : 0 < limit)
    (hunlimited : search.limit = 0) (frontier : Frontier) :
    search.Limits limit false (search.expand frontier)
      ((search.withLimit limit).expand frontier) := by
  cases hevents : frontier.events with
  | nil =>
    obtain ⟨hsame, hidle⟩ := search.expand_withLimit_of_nil limit hevents
    rw [hsame]
    rcases Nat.lt_or_ge search.executed limit with hbelow | hreached
    · exact .below hbelow
    · exact .late hreached rfl hidle
  | cons event events =>
    obtain ⟨hsame, hfires⟩ := branch_withLimit hreducing limit frontier event events
    have hopen : search.atLimit = false := by simp [atLimit, hunlimited]
    have hturn : search.expand frontier = search.branch frontier event events := by
      simp [expand, hevents, hopen]
    rw [hturn]
    rcases Nat.lt_or_ge search.executed limit with hbelow | hreached
    · have hlimited : (search.withLimit limit).expand frontier =
          (search.branch frontier event events).withLimit limit := by
        simp [expand, hevents, atLimit_of_lt hbelow, hsame]
      rw [hlimited]
      exact .below hbelow
    · have hlimited : (search.withLimit limit).expand frontier =
          .ended (search.withLimit limit) (.ok .limitReached) := by
        simp [expand, hevents, atLimit_of_le hpositive hreached]
      rw [hlimited]
      exact .stops hreached (Or.inr hfires)

/-- No turn changes the limit. -/
theorem limit_of_reaches {turn : Search → κ → Turn κ}
    (hcounts : ∀ (later : Search) (next : κ), later.CountsTurn (turn later next)) {later : Search}
    {first next : κ} (hreaches : Reaches turn search first later next) :
    later.limit = search.limit := by
  refine hreaches.keeps (P := fun later _ => later.limit = search.limit) rfl
    fun between here _ hsame => ?_
  have hcount := hcounts between here
  generalize turn between here = taken at hcount
  cases hcount with
  | fired hlimit | moved hlimit => exact hlimit.trans hsame
  | ended => trivial

/-- The events that the search of a program executes with a limit are the first ones that it
executes without, and it is complete if these are all, with one to spare when it is reduced. -/
theorem explore_withLimit {program : Program} {config : ExploreConfig}
    (hstart : start program config 0 = .ok search) (hpositive : 0 < limit) :
    (search.withLimit limit).fired = search.fired.take limit ∧
      (search.withLimit limit).explore.2 =
        .ok (endsWithin (search.fired.length + (isReduced program config).toNat) limit) := by
  have hlimited : start program config limit = .ok (search.withLimit limit) := by
    obtain ⟨hvalid, rfl⟩ := start_eq_ok_iff.mp hstart
    exact start_eq_ok_iff.mpr ⟨hvalid, rfl⟩
  have hfirst : search.registerPoint.1.limit = 0 ∧ search.registerPoint.1.executed = 0 := by
    obtain ⟨-, rfl⟩ := start_eq_ok_iff.mp hstart
    exact ⟨rfl, rfl⟩
  cases hmode : isReduced program config with
  | true =>
    obtain ⟨hreduce, hevents⟩ := isReduced_iff.mp hmode
    have hunderway := underway_start hstart hreduce hevents
    obtain ⟨final, hfinal, -⟩ := explore_completes hstart hreduce hevents
    rw [explore_eq hstart hreduce hevents] at hfinal
    obtain ⟨hfirings, houtcome⟩ := takeTurns_withLimit true
      (fun later next hreaches => by
        obtain ⟨waiting, taken, hready⟩ := hunderway.ready.of_reaches hreaches
        exact hready.limits hpositive
          ((limit_of_reaches countsTurn_decide hreaches).trans hfirst.1))
      countsTurn_decide .start hfinal (by omega)
    rw [hfirst.2, Nat.sub_zero] at hfirings
    rw [hfirst.2, Nat.zero_add] at houtcome
    have hfired := fired_of_reduced hstart hreduce hevents
    refine ⟨?_, ?_⟩
    · rw [fired_of_reduced hlimited hreduce hevents, hfired, ← List.map_take]
      exact congrArg _ hfirings
    · rw [explore_eq hlimited hreduce hevents, hfired, List.length_map]
      exact houtcome
  | false =>
    have hplain := isReduced_eq_false_iff.mp hmode
    have hreducing := (sweeps_start hstart hplain search.registerPoint.2).reducing
    obtain ⟨final, hfinal, -⟩ := explore_numbers_reachable hstart hplain
    rw [explore_of_plain hstart hplain] at hfinal
    obtain ⟨hfirings, houtcome⟩ := takeTurns_withLimit false
      (fun later next hreaches => limits_expand (hreaches.exhaustive hreducing).1 hpositive
        ((limit_of_reaches countsTurn_expand hreaches).trans hfirst.1) next)
      countsTurn_expand .start hfinal (by omega)
    rw [hfirst.2, Nat.sub_zero] at hfirings
    rw [hfirst.2, Nat.zero_add] at houtcome
    have hfired := fired_of_plain hstart hplain
    refine ⟨?_, ?_⟩
    · rw [fired_of_plain hlimited hplain, hfired, ← List.map_take]
      exact congrArg _ hfirings
    · rw [explore_of_plain hlimited hplain, hfired, List.length_map]
      exact houtcome

/-- A limit on the number of events only truncates the search of a well-formed program. Without one
the search is complete; with one it executes the same events in the same states and order up to the
limit. It is complete all the same when a reduced search would have executed fewer events than the
limit, or an exhaustive one no more, and else the limit was reached. Either way the transitions in
the figures are the events executed, and for a reduced search the unique transitions are the
different ones among them. -/
theorem limit_only_truncates {program : Program} {config : ExploreConfig} {limited : Search}
    (hstart : start program config 0 = .ok search)
    (hlimited : start program config limit = .ok limited) (hpositive : 0 < limit)
    (hreport : config.reportPath = none) :
    ∃ last stopped : Search,
      (∀ (m : Type → Type) [Monad m] [LawfulMonad m] [FileStore m],
        search.run (m := m) = pure (last, .ok ⟨.complete, last.explorer.summary⟩) ∧
          limited.run (m := m) = pure (stopped, .ok ⟨
            if isReduced program config then
              if last.executed < limit then .complete else .limitReached
            else if last.executed ≤ limit then .complete else .limitReached,
            stopped.explorer.summary⟩)) ∧
      last.executed = search.fired.length ∧
      stopped.executed = min limit last.executed ∧
      limited.fired = search.fired.take (min limit last.executed) ∧
      last.explorer.summary.transitions = last.executed ∧
      stopped.explorer.summary.transitions = stopped.executed ∧
      (isReduced program config = true →
        last.explorer.summary.uniqueTransitions = search.fired.dedup.length ∧
          stopped.explorer.summary.uniqueTransitions = limited.fired.dedup.length) := by
  obtain rfl : limited = search.withLimit limit := by
    rw [(start_eq_ok_iff.mp hstart).2, (start_eq_ok_iff.mp hlimited).2]
    rfl
  obtain ⟨hfired, houtcome⟩ := explore_withLimit hstart hpositive
  obtain ⟨hexecuted, hconfig, htransitions, hunique⟩ := explore_counts hstart
  obtain ⟨hexecutedLimited, hconfigLimited, htransitionsLimited, huniqueLimited⟩ :=
    explore_counts hlimited
  have hcomplete : ∃ last, search.explore = (last, .ok .complete) := by
    cases hmode : isReduced program config with
    | true =>
      obtain ⟨hreduce, hevents⟩ := isReduced_iff.mp hmode
      obtain ⟨final, hfinal, -⟩ := explore_completes hstart hreduce hevents
      exact ⟨final, hfinal⟩
    | false =>
      obtain ⟨final, hfinal, -⟩ :=
        explore_numbers_reachable hstart (isReduced_eq_false_iff.mp hmode)
      exact ⟨final, hfinal⟩
  obtain ⟨last, hlast⟩ := hcomplete
  obtain ⟨stopped, hstopped⟩ : ∃ stopped, (search.withLimit limit).explore = (stopped,
      .ok (endsWithin (search.fired.length + (isReduced program config).toNat) limit)) :=
    ⟨_, Prod.ext rfl houtcome⟩
  rw [hlast] at hexecuted hconfig htransitions hunique
  rw [hstopped] at hexecutedLimited hconfigLimited htransitionsLimited huniqueLimited
  have hends : endsWithin (search.fired.length + (isReduced program config).toNat) limit =
      if isReduced program config then
        if last.executed < limit then .complete else .limitReached
      else if last.executed ≤ limit then .complete else .limitReached := by
    rw [endsWithin, hexecuted]
    cases isReduced program config <;> rfl
  refine ⟨last, stopped, fun m _ _ _ => ⟨?_, ?_⟩, hexecuted, ?_, ?_, ?_, ?_, fun hmode => ?_⟩
  · exact run_of_explore hlast (by rw [hconfig, hreport])
  · rw [← hends]
    exact run_of_explore hstopped (by rw [hconfigLimited, hreport])
  · rw [hexecutedLimited, hfired, List.length_take, hexecuted]
  · rw [hfired, hexecuted, ← List.take_eq_take_min]
  · rw [htransitions, hexecuted]
  · rw [htransitionsLimited, hexecutedLimited]
  · exact ⟨hunique hmode, huniqueLimited hmode⟩

/-- The reduced search of two writers executes nine events. With a limit of nine it executes the
same ones, but it is stopped before it can find that none is left. -/
theorem limit_only_truncates_twoWriters :
    ∃ search limited last stopped, start twoWriters {} 0 = .ok search ∧
      start twoWriters {} 9 = .ok limited ∧ last.executed = 9 ∧ stopped.executed = 9 ∧
      (∀ (m : Type → Type) [Monad m] [LawfulMonad m] [FileStore m],
        search.run (m := m) = pure (last, .ok ⟨.complete, last.explorer.summary⟩) ∧
          limited.run (m := m) = pure (stopped, .ok ⟨.limitReached, stopped.explorer.summary⟩)) ∧
      limited.fired = search.fired.take 9 ∧
      last.explorer.summary.uniqueTransitions = search.fired.dedup.length := by
  have hstart : start twoWriters {} 0 = .ok (initial twoWriters {} 0) :=
    start_eq_ok_iff.mpr ⟨by decide +kernel, rfl⟩
  have hlimited : start twoWriters {} 9 = .ok (initial twoWriters {} 9) :=
    start_eq_ok_iff.mpr ⟨by decide +kernel, rfl⟩
  have hlength : (initial twoWriters {} 0).fired.length = 9 := by decide +kernel
  obtain ⟨last, stopped, hruns, hexecuted, hstopped, hfired, -, -, hunique⟩ :=
    limit_only_truncates hstart hlimited (by decide) rfl
  rw [hlength] at hexecuted
  rw [hexecuted] at hstopped hfired
  have hmode : isReduced twoWriters {} = true := by decide
  refine ⟨_, _, last, stopped, hstart, hlimited, hexecuted, hstopped, fun m _ _ _ => ?_, hfired,
    (hunique hmode).1⟩
  have hrun := hruns m
  rw [hexecuted, hmode] at hrun
  exact hrun

end Search

end EventOrder
