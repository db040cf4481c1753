import EventOrder.Proofs.Race.Opening
import EventOrder.Proofs.Search.Independence
import EventOrder.Proofs.Search.Termination

/-!
# Dependent events

The first execution of a reduced search takes every event once before it takes any of them again.
With no filter patterns and no depth limit it goes on beyond that, so every event completes in it
after all events before it. Of two dependent events the later one then calls for a reordering.
-/

namespace EventOrder

/-- The accesses that one event performs to one variable in one way are the same. -/
theorem Program.Touches.eq_of_same {program : Program} {event : Event} {access other : Access}
    (h : program.Touches event access) (hother : program.Touches event other)
    (hkind : other.kind = access.kind) (hfield : other.field = access.field) : other = access := by
  obtain ⟨name, -, hto⟩ := h
  obtain ⟨otherName, -, hotherTo⟩ := hother
  have hname : otherName = name := by
    rw [← field_of_accessTo? hto, ← field_of_accessTo? hotherTo, hfield]
  rw [hkind, hname, hto] at hotherTo
  exact (Option.some.inj hotherTo).symm

namespace Search

variable {search : Search} {point : DecisionPoint} {waiting taken : List BacktrackPoint}
  {program : Program}

/-- The first execution of the search of a program, without filter patterns and depth limit. -/
structure Opens (search : Search) (program : Program) : Prop where
  /-- The search runs the program. -/
  code : search.code = program.code
  /-- There are no filter patterns. -/
  patterns : search.explorer.filter.patterns = .empty
  /-- So nothing was dropped. -/
  dropped : search.explorer.filter.dropped = ∅
  /-- Executions may be of any depth. -/
  maxDepth : search.explorer.config.maxDepth = 0
  /-- No execution came before. -/
  earlier : search.explorer.visits.earlier = ∅
  /-- The events are taken in their own order. -/
  order : search.explorer.schedule.order = program.code.events
  /-- The execution is tracked. -/
  tracks : search.Tracks
  /-- The last event executed is not completed yet. -/
  opening : search.explorer.knowledge.Opening program.Touches search.explorer.current
    search.explorer.counter (search.explorer.counter - 1)

/-- The place before a recorded decision leads into its state. -/
private theorem opening_noted (h : search.Underway point waiting taken)
    (hopens : search.Opens program) (due : Event) :
    (search.explorer.noted search.machine.view point.id due).knowledge.Opening program.Touches
      search.explorer.current search.explorer.counter (search.explorer.counter - 1) := by
  have htaken := h.explorer.taken?_noted search.machine.view point.id due
  have hbefore {position : Nat} (hposition : position < search.explorer.counter) :
      (search.explorer.noted search.machine.view point.id due).knowledge.log.taken?
          ⟨search.explorer.current, position⟩ =
        search.explorer.knowledge.log.taken? ⟨search.explorer.current, position⟩ := by
    rw [htaken, if_neg]
    simp only [TransitionRef.mk.injEq, true_and]
    omega
  refine ⟨fun place transition footprint hplace hheld => ?_,
    fun position transition access hposition hplace htouches => ?_,
    fun position transition hposition hplace => ?_, fun state event hentry => ?_⟩
  · rw [Explorer.footprint?_noted] at hheld
    rw [htaken] at hplace
    split at hplace
    · rename_i hhere
      rw [hhere, h.explorer.footprint?_eq_none (Nat.le_refl _)] at hheld
      exact absurd hheld (by simp)
    · exact hopens.opening.alone place transition footprint hplace hheld
  · rw [hbefore hposition] at hplace
    rw [Explorer.footprint?_noted]
    exact hopens.opening.recorded position transition access hposition hplace htouches
  · rw [hbefore hposition] at hplace
    exact Explorer.mem_predecessors_noted.mpr
      (Or.inl (hopens.opening.leads position transition hposition hplace))
  · obtain ⟨position, transition, hposition, hplace, hevent⟩ :=
      hopens.opening.summarised state event hentry
    exact ⟨position, transition, hposition, by rw [hbefore (by omega), hplace], hevent⟩

/-- What is known once a recorded decision was weighed. -/
private theorem opening_weighed (h : search.Underway point waiting taken)
    (hopens : search.Opens program) {due : Event} (hrecorded : search.matchesState = false)
    (hweighs : search.Weighs point due (search.weighed point)) :
    (search.weighed point).knowledge.Opening program.Touches search.explorer.current
        search.explorer.counter search.explorer.counter ∧
      (search.weighed point).filter = search.explorer.filter ∧
      (search.weighed point).config = search.explorer.config ∧
      (search.weighed point).knowledge.log =
        (search.explorer.noted search.machine.view point.id due).knowledge.log ∧
      (search.weighed point).knowledge.predecessors =
        (search.explorer.noted search.machine.view point.id due).knowledge.predecessors := by
  generalize search.weighed point = weighed at hweighs
  cases hweighs with
  | matched hmatches => exact absurd hmatches (by simp [hrecorded])
  | recorded _ hlearns =>
    exact ⟨(opening_noted h hopens _).learns (Nat.sub_le _ _) hlearns, rfl, rfl, hlearns.log_eq,
      hlearns.predecessors_eq⟩

/-- All accesses of the due event are recorded once it was executed. -/
private theorem mem_tracked_iff (hopens : search.Opens program)
    (hvalid : program.violation? = none) {due : Event} {access : Access} :
    access ∈ search.tracked point due ↔ program.Touches due access := by
  rw [tracked, (PatternFilter.sift_of_patterns_empty hopens.patterns hopens.dropped _).1, accesses,
    hopens.code]
  exact Program.mem_observations_iff hvalid

/-- What is known once the due event was executed. -/
private theorem opening_advanced (h : search.Underway point waiting taken)
    (hopens : search.Opens program) (hvalid : program.violation? = none) {due : Event}
    (hdue : due ∈ search.code.events) (hrecorded : search.matchesState = false)
    (hweighs : search.Weighs point due (search.weighed point)) :
    (search.advanced point due).explorer.knowledge.Opening program.Touches
      search.explorer.current (search.explorer.counter + 1) search.explorer.counter := by
  obtain ⟨decisions, -, -, hunderway⟩ := (h.weighed hdue hweighs).underway
  obtain ⟨hweighed, -, -, hlog, hpredecessors⟩ := opening_weighed h hopens hrecorded hweighs
  obtain ⟨-, -, -, hsummary⟩ := search.advanced_filter point due hunderway.reducing
  have htaken := (h.advanced_same hdue hrecorded hweighs).2.2.2.2
  have hfootprint := h.footprint?_advanced hdue hrecorded hweighs
  have hbefore {position : Nat} (hposition : position ≠ search.explorer.counter) :
      (search.advanced point due).explorer.knowledge.log.taken?
          ⟨search.explorer.current, position⟩ =
        search.explorer.knowledge.log.taken? ⟨search.explorer.current, position⟩ := by
    rw [htaken, if_neg fun hplace => hposition (congrArg TransitionRef.position hplace)]
  have hlead {state : StateId} {place : TransitionRef}
      (hplace : place ∈ (search.explorer.noted search.machine.view point.id
        due).knowledge.predecessors.of state) :
      place ∈ (search.advanced point due).explorer.knowledge.predecessors.of state := by
    rw [← hpredecessors] at hplace
    exact Explorer.mem_predecessors_stateEntered_of_mem hplace
  refine ⟨fun place transition footprint hplace hheld => ?_,
    fun position transition access hposition hplace htouches => ?_,
    fun position transition hposition hplace => ?_, fun state event hentry => ?_⟩
  · rw [htaken] at hplace
    rw [hfootprint] at hheld
    split at hplace
    · rename_i hhere
      exact ⟨congrArg TransitionRef.execution hhere,
        Nat.lt_succ_of_le (Nat.le_of_eq (congrArg TransitionRef.position hhere))⟩
    · rename_i helsewhere
      rw [if_neg fun hboth => helsewhere hboth.1] at hheld
      obtain ⟨hexecution, hposition⟩ :=
        hopens.opening.alone place transition footprint hplace hheld
      exact ⟨hexecution, Nat.lt_succ_of_lt hposition⟩
  · by_cases hlast : position = search.explorer.counter
    · rw [htaken, hlast, if_pos rfl] at hplace
      rw [← Option.some.inj hplace] at htouches
      have hmem : access ∈ search.tracked point due :=
        (mem_tracked_iff hopens hvalid).mpr htouches
      refine ⟨_, by rw [hfootprint, hlast, if_pos ⟨rfl, List.ne_nil_of_mem hmem⟩], ?_⟩
      refine Footprint.mem_foldl_record (fun other hother hkind hfield => ?_) (Or.inl hmem)
      exact htouches.eq_of_same ((mem_tracked_iff hopens hvalid).mp hother) hkind hfield
    · rw [hbefore hlast] at hplace
      rw [hfootprint, if_neg fun hboth => hlast (congrArg TransitionRef.position hboth.1)]
      exact hopens.opening.recorded position transition access (by omega) hplace htouches
  · by_cases hlast : position + 1 = search.explorer.counter
    · rw [htaken, hlast, if_pos rfl] at hplace
      rw [← Option.some.inj hplace]
      refine hlead (Explorer.mem_predecessors_noted.mpr (Or.inr ⟨rfl, ?_⟩))
      rw [Explorer.previousPlace?, if_neg (by omega), ← hlast, Nat.add_sub_cancel]
    · rw [hbefore hlast] at hplace
      exact hlead (Explorer.mem_predecessors_noted.mpr
        (Or.inl (hopens.opening.leads position transition (by omega) hplace)))
  · rw [hsummary] at hentry
    obtain ⟨position, transition, hposition, hplace, hevent⟩ :=
      hweighed.summarised state event hentry
    rw [hlog, h.explorer.taken?_noted, if_neg (by simp; omega)] at hplace
    exact ⟨position, transition, hposition, by rw [hbefore (by omega), hplace], hevent⟩

/-- The first execution goes on when the due event is executed. -/
private theorem Opens.advanced (h : search.Underway point waiting taken)
    (hopens : search.Opens program) (hvalid : program.violation? = none) {due : Event}
    (hdue : due ∈ search.code.events)
    (hat : search.explorer.schedule.eventAt? search.explorer.counter = some due)
    (hrecorded : search.matchesState = false)
    (hweighs : search.Weighs point due (search.weighed point))
    (hnew : 0 < search.explorer.counter → search.machine.isNew = false →
      search.explorer.coversAllEvents search.machine.state = false) :
    (search.advanced point due).Opens program := by
  obtain ⟨decisions, -, -, hunderway⟩ := (h.weighed hdue hweighs).underway
  obtain ⟨-, hfilter, hconfig, -, -⟩ := opening_weighed h hopens hrecorded hweighs
  obtain ⟨hfilterAfter, hconfigAfter, -, -⟩ :=
    search.advanced_filter point due hunderway.reducing
  obtain ⟨hcurrent, hcounter, hschedule, hvisits, -⟩ := h.advanced_same hdue hrecorded hweighs
  have hsift := PatternFilter.sift_of_patterns_empty hopens.patterns hopens.dropped
    (search.accesses point.id due)
  rw [hfilter] at hfilterAfter
  rw [hconfig] at hconfigAfter
  refine
    { code := hopens.code, patterns := ?_, dropped := ?_, maxDepth := ?_, earlier := ?_,
      order := ?_, tracks := hopens.tracks.advanced h hdue hat hrecorded hweighs hnew,
      opening := ?_ }
  · rw [hfilterAfter]
    exact hsift.2.1
  · rw [hfilterAfter]
    exact hsift.2.2
  · rw [hconfigAfter]
    exact hopens.maxDepth
  · rw [hvisits]
    exact hopens.earlier
  · rw [hschedule]
    exact hopens.order
  · rw [hcurrent, hcounter, Nat.add_sub_cancel]
    exact opening_advanced h hopens hvalid hdue hrecorded hweighs

/-- In the first execution the events are due in their own order, over and over. -/
private theorem Opens.eventAt?_eq (hopens : search.Opens program)
    (hevents : program.code.events ≠ []) (position : Nat) :
    search.explorer.schedule.eventAt? position =
      some ⟨position % program.code.events.length⟩ := by
  have hpositive : 0 < program.code.events.length := List.length_pos_iff.mpr hevents
  have hbound := Nat.mod_lt position hpositive
  rw [Schedule.eventAt?, hopens.order, List.getElem?_eq_getElem hbound]
  simp [Code.events, Event.firstEvents]

/-- The first execution is over only when it has gone on beyond a whole round. -/
private theorem Opens.lt_counter_of_isOver (hopens : search.Opens program)
    (h : search.Underway point waiting taken) (hover : search.IsOver) :
    program.code.events.length < search.explorer.counter := by
  have hcode : search.code.events = program.code.events := by rw [hopens.code]
  have hevents : program.code.events ≠ [] := hcode ▸ h.explorer.nonempty
  rcases hover with hdepth | ⟨-, hmatched⟩
  · simp [Explorer.atMaxDepth, hopens.maxDepth] at hdepth
  · have hcovers : search.explorer.coversAllEvents search.machine.state = true := by
      simpa [Explorer.isMatched, Visits.isEarlier, hopens.earlier] using hmatched
    obtain ⟨since, hsince, hall⟩ := (h.coversAllEvents_iff _).mp hcovers
    obtain ⟨position, hposition, -, -, honly⟩ := hopens.tracks.only _ since hsince
    obtain ⟨event, hevent⟩ := List.exists_mem_of_ne_nil _ hevents
    have hpositive : 0 < program.code.events.length := List.length_pos_iff.mpr hevents
    have hfirst : (⟨0⟩ : Event) ∈ program.code.events := by
      simpa [Code.events, Event.firstEvents] using hpositive
    obtain ⟨later, hlater, hbound, hat⟩ := honly ⟨0⟩ (hall ⟨0⟩ (hcode ▸ hfirst))
    rw [hopens.eventAt?_eq hevents, Option.some.injEq, Event.mk.injEq] at hat
    have hround := Nat.le_of_dvd (by omega) (Nat.dvd_of_mod_eq_zero hat)
    omega

/-- When the later one of two dependent events is completed for the first time, a reordering is
called for. -/
private theorem completePrevious_calls {explorer : Explorer Values PatternFilter}
    {events : List Event} {decisions first completed : Nat}
    (h : explorer.Underway events decisions) (hcounter : explorer.counter = completed + 1)
    (hdecisions : explorer.counter ≤ decisions)
    (hopening : explorer.knowledge.Opening program.Touches explorer.current (completed + 1)
      completed)
    (hsilent : explorer.knowledge.backlog.Ledger [] [])
    (hdue : ∀ position transition, position ≤ completed →
      explorer.knowledge.log.taken? ⟨explorer.current, position⟩ = some transition →
        transition.event = ⟨position⟩)
    (hvalid : program.violation? = none) (hlt : first < completed)
    (hdependent : program.Dependent ⟨first⟩ ⟨completed⟩) :
    0 < explorer.completePrevious.1.knowledge.backlog.created := by
  have htaken (position : Nat) (hposition : position < completed + 1) :
      ∃ transition, explorer.knowledge.log.taken? ⟨explorer.current, position⟩ =
        some transition := h.taken_of_lt (by omega)
  obtain ⟨transition, hlast⟩ := htaken completed (Nat.lt_succ_self _)
  obtain ⟨other, hearlier⟩ := htaken first (by omega)
  obtain ⟨access, earlierAccess, haccess, hother, hfield, howner, hwrite⟩ :=
    hdependent.symm.exists_touches hvalid
  rw [← hdue completed transition (Nat.le_refl _) hlast] at haccess
  rw [← hdue first other (Nat.le_of_lt hlt) hearlier] at hother
  obtain ⟨later, created, hcompleted, hcreated⟩ := hopening.eventCompleted_calls h.coherent_order
    hsilent htaken hlt hlast hearlier (fun before another hbefore hplace => by
      rw [hdue before another (by omega) hplace, hdue completed transition (Nat.le_refl _) hlast]
      simp only [ne_eq, Event.mk.injEq]
      omega) haccess hother hfield howner hwrite
  have hplace : explorer.previousPlace? = some ⟨explorer.current, completed⟩ := by
    rw [Explorer.previousPlace?, if_neg (by omega), hcounter, Nat.add_sub_cancel]
  simp only [Explorer.completePrevious, hplace, Explorer.learn, hcompleted]
  exact hcreated

/-- The decision after the later one of two dependent events calls for a reordering. -/
private theorem Opens.calls (hopens : search.Opens program) (h : search.Underway point [] [])
    (hvalid : program.violation? = none) {due : Event} (hdue : due ∈ search.code.events)
    (hat : search.explorer.schedule.eventAt? search.explorer.counter = some due)
    {first second : Nat} (hlt : first < second) (hbound : second < program.code.events.length)
    (hdependent : program.Dependent ⟨first⟩ ⟨second⟩)
    (hcounter : search.explorer.counter = second + 1) :
    0 < (search.weighed point).knowledge.backlog.created := by
  have hevents : program.code.events ≠ [] := by
    intro hnone
    simp [hnone] at hbound
  have htaken (position : Nat) (transition : Transition) (hposition : position ≤ second)
      (hplace : search.explorer.knowledge.log.taken? ⟨search.explorer.current, position⟩ =
        some transition) : transition.event = ⟨position⟩ := by
    have hdueThere := hopens.tracks.due position transition hplace
    rw [hopens.eventAt?_eq hevents, Nat.mod_eq_of_lt (by omega)] at hdueThere
    exact (Option.some.inj hdueThere).symm
  have hopening := hopens.opening
  have hnotedOpening := opening_noted h hopens due
  rw [hcounter, Nat.add_sub_cancel] at hopening hnotedOpening
  cases hmatches : search.matchesState with
  | true =>
    simp only [Search.weighed, hmatches, if_true]
    exact completePrevious_calls h.explorer hcounter (Nat.le_refl _) hopening h.ledger htaken hvalid
      hlt hdependent
  | false =>
    have hnoted := h.explorer.noted search.machine.view point.id hdue
    have hcalls := completePrevious_calls hnoted hcounter (Nat.le_succ _)
      hnotedOpening h.ledger (fun position transition hposition hplace => by
        rw [h.explorer.taken?_noted, if_neg] at hplace
        · exact htaken position transition hposition hplace
        · simp only [Explorer.noted, TransitionRef.mk.injEq, true_and]
          omega) hvalid hlt hdependent
    obtain ⟨later, created, hcompleted, hlearns⟩ := hnoted.completePrevious_eq (Nat.le_succ _)
    obtain ⟨last, ended, hlast, hthen⟩ :=
      (hnoted.learn hlearns).hasNothingNew_learns (Nat.le_succ _)
    rw [hcompleted] at hcalls
    simp only [Search.weighed, hmatches, hat, Explorer.weighed, hcompleted, hlast]
    exact Nat.lt_of_lt_of_le hcalls hthen.created_le

/-- Weighing a decision takes no admitted point back. -/
private theorem created_le_weighed {due : Event} {weighed : Explorer Values PatternFilter}
    (hweighs : search.Weighs point due weighed) :
    search.explorer.knowledge.backlog.created ≤ weighed.knowledge.backlog.created := by
  cases hweighs with
  | matched _ hlearns => exact hlearns.created_le
  | recorded _ hlearns => exact hlearns.created_le

/-- Once it is complete, a search of two dependent events has called for a reordering, if it had
before or if the later event is still to be completed for the first time. -/
private theorem created_pos_of_complete (h : search.Ready point waiting taken)
    (hvalid : program.violation? = none) {first second : Nat} (hlt : first < second)
    (hbound : second < program.code.events.length)
    (hdependent : program.Dependent ⟨first⟩ ⟨second⟩)
    (hcalls : 0 < search.adopt.explorer.knowledge.backlog.created ∨
      search.adopt.Opens program ∧ search.adopt.explorer.counter ≤ second + 1)
    {turns : Nat} {final : Search}
    (hcomplete : search.takeTurns Search.decide turns point = (final, .ok .complete)) :
    0 < final.explorer.knowledge.backlog.created := by
  induction turns generalizing search point waiting taken with
  | zero => simp [takeTurns] at hcomplete
  | succ turns ih =>
    have hunderway := h.underway
    have hturn := h.turn
    have hcreated := hunderway.ledger.created
    simp only [takeTurns] at hcomplete
    generalize search.decide point = turn at hturn hcomplete
    cases hturn with
    | @fired due hdue hat hrecorded hweighs hnew next more hafter =>
      refine ih hafter.ready ?_ hcomplete
      rw [hafter.adopt_eq]
      have hcounter := (hunderway.advanced_same hdue hrecorded hweighs).2.1
      have hlater := hafter.ledger.created
      rw [List.length_append] at hlater
      rcases Nat.eq_zero_or_pos search.adopt.explorer.knowledge.backlog.created with hnone | hsome
      · have hwaiting : waiting = [] := List.eq_nil_of_length_eq_zero (by omega)
        have htaken : taken = [] := List.eq_nil_of_length_eq_zero (by omega)
        subst hwaiting htaken
        obtain ⟨hopens, hearly⟩ := hcalls.resolve_left (by omega)
        by_cases hlast : search.adopt.explorer.counter = second + 1
        · have hcalled := hopens.calls hunderway hvalid hdue hat hlt hbound hdependent hlast
          obtain ⟨decisions, -, -, hweighed⟩ := (hunderway.weighed hdue hweighs).underway
          obtain ⟨filter, log, predecessors, heq, -⟩ :=
            search.adopt.advanced_explorer point due hweighed.reducing
          rw [heq]
          exact Or.inl hcalled
        · refine Or.inr ⟨hopens.advanced hunderway hvalid hdue hat hrecorded hweighs hnew, ?_⟩
          omega
      · exact Or.inl (by omega)
    | @moved due hdue hat hweighs hover popped rest hpop hschedule values isNew closed next
        remaining hafter later hadopt hready =>
      refine ih hready (Or.inl ?_) hcomplete
      have hlater := hafter.ledger.created
      rw [List.length_append, List.length_singleton] at hlater
      rw [hadopt]
      omega
    | @complete due hdue hat hweighs hover hpop last hknowledge =>
      have hfinal : last = final := congrArg Prod.fst hcomplete
      rcases hcalls with hbefore | ⟨hopens, hearly⟩
      · rw [← hfinal, hknowledge]
        exact Nat.lt_of_lt_of_le hbefore (created_le_weighed hweighs)
      · have hround := hopens.lt_counter_of_isOver hunderway hover
        omega
    | stopped => simp at hcomplete

/-- A search without filter patterns and depth limit starts with its first execution. -/
private theorem opens_start {config : ExploreConfig} {limit : Nat}
    (hstart : start program config limit = .ok search) (hreduce : config.stateReduction = true)
    (hevents : program.events ≠ []) (hfilter : program.filter = .empty)
    (hdepth : config.maxDepth = 0) : search.registerPoint.1.Opens program := by
  have htracks := tracks_start hstart hreduce hevents
  have hregistered := registerPoint_start hstart hreduce hevents
  rw [hregistered] at htracks ⊢
  obtain ⟨-, rfl⟩ := start_eq_ok_iff.mp hstart
  refine
    { code := rfl, patterns := hfilter, dropped := rfl, maxDepth := hdepth, earlier := rfl,
      order := rfl, tracks := htracks, opening := ⟨?_, ?_, ?_, ?_⟩ }
  · intro place transition footprint htaken
    rw [taken?_registered] at htaken
    exact absurd htaken (by simp)
  · exact fun position transition access hposition => absurd hposition (Nat.not_lt_zero _)
  · exact fun position transition hposition => absurd hposition (Nat.not_lt_zero _)
  · intro state event hentry
    exact absurd hentry (by
      simp [registered, Explorer.start, Knowledge.empty, Summary.get?, Summary.empty])

/-- Once it is complete, the reduced search of a program with two dependent events, no filter
patterns and no depth limit has called for a reordering. -/
theorem created_pos_of_dependent {config : ExploreConfig} {limit : Nat} {final : Search}
    (hstart : start program config limit = .ok search) (hreduce : config.stateReduction = true)
    (hevents : program.events ≠ []) (hfilter : program.filter = .empty)
    (hdepth : config.maxDepth = 0) {first second : Event}
    (hdependent : program.Dependent first second)
    (hcomplete : search.explore = (final, .ok .complete)) :
    0 < final.explorer.knowledge.backlog.created := by
  obtain ⟨earlier, later, hlt, hbound, hordered⟩ : ∃ earlier later, earlier < later ∧
      later < program.events.length ∧ program.Dependent ⟨earlier⟩ ⟨later⟩ := by
    obtain ⟨hfirst, hsecond⟩ := hdependent.lt_length
    rcases Nat.lt_or_gt_of_ne fun heq => hdependent.1 (congrArg Event.mk heq) with hlt | hgt
    · exact ⟨_, _, hlt, hsecond, hdependent⟩
    · exact ⟨_, _, hgt, hfirst, hdependent.symm⟩
  have hunderway := underway_start hstart hreduce hevents
  have hopens := opens_start hstart hreduce hevents hfilter hdepth
  rw [explore_eq hstart hreduce hevents] at hcomplete
  refine created_pos_of_complete hunderway.ready (start_eq_ok_iff.mp hstart).1 hlt
    (by simpa [events_code, Event.firstEvents] using hbound) hordered (Or.inr ?_) hcomplete
  rw [hunderway.adopt_eq]
  refine ⟨hopens, ?_⟩
  rw [registerPoint_start hstart hreduce hevents]
  exact Nat.zero_le _

/-- A reduced search calls for reorderings exactly when two events are dependent. Without dependent
events it admits no backtrack point, whatever the filter, the depth and the limit are; and if there
are no filter patterns, no depth limit and no limit on the events, it completes, it has admitted
none only if no two events are dependent, and then it has started one execution. -/
theorem backtracks_iff_dependent {config : ExploreConfig} {limit : Nat}
    (hstart : start program config limit = .ok search) (hreduce : config.stateReduction = true)
    (hevents : program.events ≠ []) :
    ((∀ first second, ¬program.Dependent first second) →
      search.explore.1.explorer.summary.backtrackPoints = 0) ∧
    (program.filter = .empty → config.maxDepth = 0 → limit = 0 →
      ∃ final, search.explore = (final, .ok .complete) ∧
        (final.explorer.summary.backtrackPoints = 0 ↔
          ∀ first second, ¬program.Dependent first second) ∧
        ((∀ first second, ¬program.Dependent first second) →
          final.explorer.summary.executions = 1)) := by
  refine ⟨created_eq_zero_of_not_dependent hstart hreduce hevents, ?_⟩
  rintro hfilter hdepth rfl
  obtain ⟨final, hcomplete, -⟩ := explore_completes hstart hreduce hevents
  have hnone (hindependent : ∀ first second, ¬program.Dependent first second) :
      final.explorer.summary.backtrackPoints = 0 := by
    have hcreated := created_eq_zero_of_not_dependent hstart hreduce hevents hindependent
    rw [hcomplete] at hcreated
    exact hcreated
  refine ⟨final, hcomplete, ⟨fun hzero first second hdependent => ?_, hnone⟩,
    fun hindependent => ?_⟩
  · have hpositive := created_pos_of_dependent hstart hreduce hevents hfilter hdepth hdependent
      hcomplete
    exact Nat.ne_of_gt hpositive hzero
  · rw [(concluded_of_explore hstart hreduce hevents hcomplete).executions_eq, hnone hindependent]

/-- The two events that write one variable are dependent, so their search has backtrack points. -/
theorem backtracks_iff_dependent_twoWriters :
    ∃ search final, start twoWriters {} 0 = .ok search ∧
      search.explore = (final, .ok .complete) ∧ twoWriters.Dependent ⟨0⟩ ⟨1⟩ ∧
        final.explorer.summary.backtrackPoints ≠ 0 := by
  have hstart : start twoWriters {} 0 = .ok (initial twoWriters {} 0) :=
    start_eq_ok_iff.mpr ⟨by decide +kernel, rfl⟩
  have hdependent : twoWriters.Dependent ⟨0⟩ ⟨1⟩ :=
    ⟨by decide, "x", .write, Or.inl ⟨by decide, by decide⟩⟩
  obtain ⟨final, hcomplete, hiff, -⟩ :=
    (backtracks_iff_dependent hstart rfl (by decide)).2 rfl rfl rfl
  exact ⟨_, final, hstart, hcomplete, hdependent, fun hzero => hiff.mp hzero _ _ hdependent⟩

end Search

end EventOrder
