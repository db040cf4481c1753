import EventOrder.Proofs.Race.Retention
import EventOrder.Proofs.Search.Expansion
import EventOrder.Proofs.Search.Recording
import EventOrder.Proofs.Search.Runs

/-!
# No observed access is lost

Variables have different names, so each field has one owner. Whatever was recorded at a place of an
execution is summarised for the event taken there at its state, with the exception of the last place
of the execution under way: its event is completed at the next decision, or when the path is ended
there. So at the end of a search nothing is left out.
-/

namespace EventOrder

namespace Program

variable {program : Program}

/-- The access is to a declared variable, as the owner that the variable has. -/
def Declares (program : Program) (access : Access) : Prop :=
  program.accessTo? access.kind access.field = some access

/-- An event performs only accesses to declared variables. -/
theorem Touches.declares {event : Event} {access : Access} (h : program.Touches event access) :
    program.Declares access := by
  obtain ⟨name, -, hto⟩ := h
  unfold Declares
  rw [field_of_accessTo? hto]
  exact hto

/-- Each declared variable has one owner. -/
theorem unambiguous_declares (program : Program) : Unambiguous program.Declares := by
  intro access other haccess hother hkind hfield
  unfold Declares at haccess hother
  rw [hkind, hfield, haccess] at hother
  exact (Option.some.inj hother).symm

end Program

/-- All that was recorded is summarised where it was taken. -/
def Knowledge.Retained (knowledge : Knowledge) : Prop :=
  ∀ place recorded, knowledge.log.footprint? place = some recorded →
    ∃ transition, knowledge.log.taken? place = some transition ∧
      knowledge.Retains place transition

namespace Explorer

variable {σ φ : Type} {explorer : Explorer σ φ} {events : List Event} {decisions : Nat}
  {allowed : Access → Prop}

/-- All that was recorded is summarised, but what was recorded at the last place of the execution
under way. -/
structure Retaining (explorer : Explorer σ φ) (allowed : Access → Prop) : Prop where
  /-- Only these accesses were recorded and summarised. -/
  among : explorer.knowledge.Among allowed
  /-- What was recorded at earlier places is summarised. -/
  retains : ∀ place recorded, explorer.knowledge.log.footprint? place = some recorded →
    ∃ transition, explorer.knowledge.log.taken? place = some transition ∧
      (explorer.previousPlace? = some place ∨ explorer.knowledge.Retains place transition)

/-- Learning that summarises what was recorded at the last place leaves nothing out. -/
theorem Retaining.of_learns (h : explorer.Retaining allowed) (hunambiguous : Unambiguous allowed)
    {reference : List Event} {later : Knowledge}
    (hlearns : explorer.knowledge.Learns reference later)
    (hlast : ∀ place transition, explorer.previousPlace? = some place →
      explorer.knowledge.log.taken? place = some transition → later.Retains place transition) :
    later.Among allowed ∧ later.Retained := by
  refine ⟨h.among.of_learns hlearns, fun place recorded hrecorded => ?_⟩
  rw [hlearns.log_eq] at hrecorded ⊢
  obtain ⟨transition, htaken, hplace⟩ := h.retains place recorded hrecorded
  refine ⟨transition, htaken, ?_⟩
  rcases hplace with hprevious | hretains
  · exact hlast place transition hprevious htaken
  · exact hretains.of_learns h.among hunambiguous hlearns

/-- Recording a decision records no access. -/
theorem Retaining.noted (h : explorer.Retaining allowed)
    (hunderway : explorer.Underway events explorer.counter) (view : HostView σ) (point : PointId)
    (event : Event) : (explorer.noted view point event).Retaining allowed := by
  have hfootprint := explorer.footprint?_noted view point event
  refine ⟨⟨fun place footprint hplace => ?_, h.among.summarised⟩,
    fun place recorded hrecorded => ?_⟩
  · exact h.among.recorded place footprint ((hfootprint place).symm.trans hplace)
  · rw [hfootprint] at hrecorded
    obtain ⟨transition, htaken, hplace⟩ := h.retains place recorded hrecorded
    refine ⟨transition, hunderway.taken?_noted_of_taken? view point event htaken,
      hplace.imp_right fun hretains held hheld => ?_⟩
    exact hretains held ((hfootprint place).symm.trans hheld)

/-- Completing the event before a decision summarises all that was recorded of it. -/
theorem Underway.completePrevious_retains (h : explorer.Underway events decisions)
    (hcounter : explorer.counter ≤ decisions) :
    ∃ later created, explorer.completePrevious =
        ({ explorer with knowledge := later }, .ok created) ∧
      explorer.knowledge.Learns explorer.schedule.order later ∧
        ∀ place transition, explorer.previousPlace? = some place →
          explorer.knowledge.log.taken? place = some transition →
            later.Retains place transition := by
  unfold completePrevious
  cases hprevious : explorer.previousPlace? with
  | none => exact ⟨explorer.knowledge, 0, rfl, .refl, fun _ _ hnone => absurd hnone (by simp)⟩
  | some place =>
    obtain ⟨transition, htaken⟩ := h.taken_of_previousPlace? hcounter hprevious
    obtain ⟨later, created, hcompleted, hlearns, hretains⟩ :=
      h.coherent_order.eventCompleted_retains htaken
    refine ⟨later, created, by simp [Explorer.learn, hcompleted], hlearns, ?_⟩
    intro other another hsame hanother
    obtain rfl := Option.some.inj hsame
    exact Option.some.inj (htaken.symm.trans hanother) ▸ hretains

end Explorer

namespace Search

variable {search : Search} {point : DecisionPoint} {waiting taken : List BacktrackPoint}
  {program : Program} {due : Event}

/-- Weighing a decision takes nothing out of the summary. -/
theorem mem_of_weighs {allowed : Access → Prop}
    (h : search.explorer.Retaining allowed) (hunambiguous : Unambiguous allowed)
    (hunderway : search.Underway point waiting taken) {weighed : Explorer Values PatternFilter}
    (hweighs : search.Weighs point due weighed) {state : StateId} {event : Event} {access : Access}
    (haccess : access ∈ search.explorer.knowledge.summary.footprintAt state event) :
    access ∈ weighed.knowledge.summary.footprintAt state event := by
  cases hweighs with
  | matched _ hlearns => exact h.among.mem_of_learns hunambiguous hlearns haccess
  | recorded _ hlearns =>
    have hnoted := h.noted hunderway.explorer search.machine.view point.id due
    exact hnoted.among.mem_of_learns hunambiguous hlearns haccess

/-- Once a decision is weighed, all that was recorded is summarised. -/
theorem retained_weighed (h : search.explorer.Retaining program.Declares)
    (hunderway : search.Underway point waiting taken) (hdue : due ∈ search.code.events)
    (hat : search.explorer.schedule.eventAt? search.explorer.counter = some due) :
    (search.weighed point).knowledge.Among program.Declares ∧
      (search.weighed point).knowledge.Retained := by
  have hunambiguous := program.unambiguous_declares
  cases hmatches : search.matchesState with
  | true =>
    obtain ⟨later, created, hcompleted, hlearns, hlast⟩ :=
      hunderway.explorer.completePrevious_retains (Nat.le_refl _)
    simp only [Search.weighed, hmatches, if_true, hcompleted]
    exact h.of_learns hunambiguous hlearns hlast
  | false =>
    have hnoted := hunderway.explorer.noted search.machine.view point.id hdue
    have hretaining := h.noted hunderway.explorer search.machine.view point.id due
    obtain ⟨between, created, hcompleted, hlearns, hlast⟩ :=
      hnoted.completePrevious_retains (Nat.le_succ _)
    obtain ⟨later, ended, hlater, hthen⟩ :=
      (hnoted.learn hlearns).hasNothingNew_learns (Nat.le_succ _)
    simp only [Search.weighed, hmatches, Bool.false_eq_true, if_false, hat, Explorer.weighed,
      hcompleted, hlater]
    refine hretaining.of_learns hunambiguous (hlearns.trans hthen) ?_
    intro place transition hprevious htaken
    exact (hlast place transition hprevious htaken).of_learns (hretaining.among.of_learns hlearns)
      hunambiguous hthen

/-- A restart leaves nothing out. -/
private theorem retaining_restarted {weighed : Explorer Values PatternFilter}
    {allowed : Access → Prop} (hamong : weighed.knowledge.Among allowed)
    (hretained : weighed.knowledge.Retained) (next : BacktrackPoint) (rest : Backlog) :
    (weighed.restarted next rest).Retaining allowed := by
  have hfootprint := weighed.footprint?_restarted next rest
  refine ⟨⟨fun place footprint hplace => ?_, hamong.summarised⟩, fun place recorded hplace => ?_⟩
  · exact hamong.recorded place footprint ((hfootprint place).symm.trans hplace)
  · obtain ⟨transition, htaken, hretains⟩ :=
      hretained place recorded ((hfootprint place).symm.trans hplace)
    refine ⟨transition, (weighed.taken?_restarted next rest place).trans htaken, Or.inr ?_⟩
    exact fun held hheld => hretains held ((hfootprint place).symm.trans hheld)

/-- Executing the due event records accesses to declared variables at its place, which is the last
one then. -/
theorem retaining_advanced (h : search.explorer.Retaining program.Declares)
    (hunderway : search.Underway point waiting taken) (hvalid : program.violation? = none)
    (hcode : search.code = program.code) (hdue : due ∈ search.code.events)
    (hat : search.explorer.schedule.eventAt? search.explorer.counter = some due)
    (hrecorded : search.matchesState = false)
    (hweighs : search.Weighs point due (search.weighed point)) :
    (search.advanced point due).explorer.Retaining program.Declares := by
  obtain ⟨decisions, -, -, hreducing⟩ := (hunderway.weighed hdue hweighs).underway
  obtain ⟨hamong, hretained⟩ := retained_weighed h hunderway hdue hat
  obtain ⟨hcurrent, hcounter, -, -, htaken⟩ := hunderway.advanced_same hdue hrecorded hweighs
  have hsummary := (search.advanced_filter point due hreducing.reducing).2.2.2
  have hfootprint := hunderway.footprint?_advanced hdue hrecorded hweighs
  refine ⟨⟨fun place footprint hplace access haccess => ?_, ?_⟩, fun place recorded hplace => ?_⟩
  · rw [hfootprint] at hplace
    split at hplace
    · rw [← Option.some.inj hplace] at haccess
      exact (touches_of_mem_tracked hvalid hcode haccess).declares
    · exact h.among.recorded place footprint hplace access haccess
  · rw [hsummary]
    exact hamong.summarised
  · have hheld := (hfootprint place).symm.trans hplace
    split at hheld
    · rename_i hhere
      obtain ⟨rfl, -⟩ := hhere
      exact ⟨_, (htaken _).trans (if_pos rfl),
        Or.inl (by simp [Explorer.previousPlace?, hcounter, hcurrent])⟩
    · obtain ⟨transition, hthere, hretains⟩ :=
        hretained place recorded ((hweighs.footprint?_eq place).trans hheld)
      obtain ⟨filter, log, predecessors, heq, hsame⟩ :=
        search.advanced_explorer point due hreducing.reducing
      refine ⟨transition, ?_, Or.inr fun other hother => ?_⟩
      · rw [heq]
        exact (hsame place).trans hthere
      · rw [hsummary]
        refine hretains other ?_
        rw [hweighs.footprint?_eq, hheld, ← hplace]
        exact hother

/-- A turn leaves nothing out but what was recorded at the last place, and takes nothing out of the
summary. -/
theorem Ready.retaining_turn (h : search.Ready point waiting taken)
    (hvalid : program.violation? = none) (hcode : search.code = program.code)
    (hretaining : search.adopt.explorer.Retaining program.Declares) :
    (search.decide point).Leaves fun later _ =>
      later.code = program.code ∧ later.adopt.explorer.Retaining program.Declares ∧
        ∀ state event, ∀ access ∈ search.explorer.knowledge.summary.footprintAt state event,
          access ∈ later.explorer.knowledge.summary.footprintAt state event := by
  have hunderway := h.underway
  have hturn := h.turn
  have hmonotone {due : Event} {weighed : Explorer Values PatternFilter}
      (hweighs : search.adopt.Weighs point due weighed) (state : StateId) (event : Event) :
      ∀ access ∈ search.explorer.knowledge.summary.footprintAt state event,
        access ∈ weighed.knowledge.summary.footprintAt state event := by
    intro access haccess
    rw [← search.knowledge_adopt] at haccess
    exact mem_of_weighs hretaining program.unambiguous_declares hunderway hweighs haccess
  generalize search.decide point = turn at hturn
  cases hturn with
  | fired hdue hat hrecorded hweighs hnew hafter =>
    have hlater := retaining_advanced hretaining hunderway hvalid hcode hdue hat hrecorded hweighs
    obtain ⟨decisions, -, -, hreducing⟩ := (hunderway.weighed hdue hweighs).underway
    refine ⟨hcode, hafter.adopt_eq.symm ▸ hlater, fun state event access haccess => ?_⟩
    rw [(search.adopt.advanced_filter point _ hreducing.reducing).2.2.2]
    exact hmonotone hweighs state event access haccess
  | @moved due hdue hat hweighs hover popped rest hpop hschedule values isNew closed next
      remaining hafter later hadopt hready =>
    obtain ⟨hamong, hretained⟩ := retained_weighed hretaining hunderway hdue hat
    have hsame : later.adopt.code = search.code := by rw [hadopt]; rfl
    refine ⟨hsame.trans hcode, ?_, fun state event access haccess => ?_⟩
    · rw [hadopt]
      exact retaining_restarted hamong hretained popped rest
    · rw [← later.knowledge_adopt, hadopt]
      exact hmonotone hweighs state event access haccess
  | complete | stopped => trivial

/-- Whatever a search comes to, nothing is left out there but what was recorded at the last
place. -/
theorem Ready.retaining_of_reaches (h : search.Ready point waiting taken)
    (hvalid : program.violation? = none) (hcode : search.code = program.code)
    (hretaining : search.adopt.explorer.Retaining program.Declares) {later : Search}
    {next : DecisionPoint} (hreaches : Reaches Search.decide search point later next) :
    later.code = program.code ∧ later.adopt.explorer.Retaining program.Declares := by
  refine hreaches.keeps (P := fun later _ => later.code = program.code ∧
    later.adopt.explorer.Retaining program.Declares) ⟨hcode, hretaining⟩
    fun between here hbetween hthere => ?_
  obtain ⟨waits, takes, hready⟩ := h.of_reaches hbetween
  have hturn := hready.retaining_turn hvalid hthere.1 hthere.2
  generalize between.decide here = turn at hturn
  cases turn with
  | fired | moved => exact ⟨hturn.1, hturn.2.1⟩
  | ended => trivial

/-- At the end of a complete search nothing recorded is left out. -/
private theorem Ready.retained (h : search.Ready point waiting taken)
    (hvalid : program.violation? = none) (hcode : search.code = program.code)
    (hretaining : search.adopt.explorer.Retaining program.Declares) {turns : Nat} {final : Search}
    (hcomplete : search.takeTurns Search.decide turns point = (final, .ok .complete)) :
    final.explorer.knowledge.Retained := by
  induction turns generalizing search point waiting taken with
  | zero => simp [takeTurns] at hcomplete
  | succ turns ih =>
    have hunderway := h.underway
    have hturn := h.turn
    have hlater := h.retaining_turn hvalid hcode hretaining
    simp only [takeTurns] at hcomplete
    generalize search.decide point = turn at hturn hcomplete hlater
    cases hturn with
    | fired _ _ _ _ _ hafter => exact ih hafter.ready hlater.1 hlater.2.1 hcomplete
    | moved _ _ _ _ _ _ _ _ hready => exact ih hready hlater.1 hlater.2.1 hcomplete
    | complete hdue hat hweighs hover hpop hknowledge =>
      obtain rfl : _ = final := congrArg Prod.fst hcomplete
      rw [hknowledge]
      exact (retained_weighed hretaining hunderway hdue hat).2
    | stopped => simp at hcomplete

/-- A search takes nothing out of its summary. -/
theorem Ready.mem_footprintAt_takeTurns (h : search.Ready point waiting taken)
    (hvalid : program.violation? = none) (hcode : search.code = program.code)
    (hretaining : search.adopt.explorer.Retaining program.Declares) (turns : Nat) {state : StateId}
    {event : Event} {access : Access}
    (haccess : access ∈ search.explorer.knowledge.summary.footprintAt state event) :
    access ∈ (search.takeTurns Search.decide turns point).1.explorer.knowledge.summary.footprintAt
      state event := by
  induction turns generalizing search point waiting taken with
  | zero => exact haccess
  | succ turns ih =>
    have hunderway := h.underway
    have hturn := h.turn
    have hlater := h.retaining_turn hvalid hcode hretaining
    simp only [takeTurns]
    generalize search.decide point = turn at hturn hlater
    cases hturn with
    | fired _ _ _ _ _ hafter =>
      exact ih hafter.ready hlater.1 hlater.2.1 (hlater.2.2 _ _ _ haccess)
    | moved _ _ _ _ _ _ _ _ hready =>
      exact ih hready hlater.1 hlater.2.1 (hlater.2.2 _ _ _ haccess)
    | complete hdue hat hweighs hover hpop hknowledge =>
      rw [hknowledge]
      rw [← search.knowledge_adopt] at haccess
      exact mem_of_weighs hretaining program.unambiguous_declares hunderway hweighs haccess
    | @stopped last hlimit hadopt =>
      rw [← last.knowledge_adopt, hadopt, search.knowledge_adopt]
      exact haccess

/-- A reduced search starts with nothing recorded and nothing summarised. -/
theorem retaining_registered (program : Program) (config : ExploreConfig) :
    (registered program config).Retaining program.Declares := by
  refine ⟨⟨fun place footprint hplace => ?_, fun state event footprint hentry => ?_⟩,
    fun place recorded hplace => ?_⟩
  · exact absurd ((footprint?_registered program config place).symm.trans hplace) (by simp)
  · exact absurd hentry (by
      simp [registered, Explorer.start, Knowledge.empty, Summary.get?, Summary.empty])
  · exact absurd ((footprint?_registered program config place).symm.trans hplace) (by simp)

/-- Once a reduced search is complete, whatever was recorded anywhere in an execution is summarised
for the event taken there at its state, whatever the filter and the depth are. -/
theorem recorded_accesses_summarised {config : ExploreConfig} {limit : Nat} {final : Search}
    (hstart : start program config limit = .ok search) (hreduce : config.stateReduction = true)
    (hcomplete : search.explore = (final, .ok .complete)) {place : TransitionRef}
    {recorded : Footprint}
    (hrecorded : final.explorer.knowledge.log.footprint? place = some recorded) :
    ∃ transition, final.explorer.knowledge.log.transition? place = some transition ∧
      ∀ access ∈ recorded,
        access ∈
          final.explorer.knowledge.summary.footprintAt transition.state transition.event := by
  have hvalid := (start_eq_ok_iff.mp hstart).1
  have hretained : final.explorer.knowledge.Retained := by
    by_cases hevents : program.events = []
    · have hexplorer := explorer_explore_of_no_events hstart hevents
      rw [hcomplete, registerPoint_start_of_plain hstart (Or.inr hevents)] at hexplorer
      intro other held hheld
      obtain ⟨-, rfl⟩ := start_eq_ok_iff.mp hstart
      rw [hexplorer] at hheld
      exact absurd ((footprint?_registered program config other).symm.trans hheld) (by simp)
    · have hunderway := underway_start hstart hreduce hevents
      rw [explore_eq hstart hreduce hevents] at hcomplete
      refine hunderway.ready.retained hvalid ?_ ?_ hcomplete
      · obtain ⟨-, rfl⟩ := start_eq_ok_iff.mp hstart
        rfl
      · rw [hunderway.adopt_eq, registerPoint_start hstart hreduce hevents]
        exact retaining_registered program config
  obtain ⟨transition, htaken, hretains⟩ := hretained place recorded hrecorded
  exact ⟨transition, ExecutionLog.transition?_of_taken? htaken, hretains recorded hrecorded⟩

/-- Of two events that write one variable under a depth limit, the last event executed is summarised
too. -/
theorem recorded_accesses_summarised_twoWriters :
    ∃ search final recorded, start twoWriters { maxDepth := 2 } 0 = .ok search ∧
      search.explore = (final, .ok .complete) ∧
        final.explorer.knowledge.log.footprint? ⟨⟨0⟩, 1⟩ = some recorded ∧
          ⟨.write, "x", ⟨1⟩⟩ ∈ recorded ∧
            ⟨.write, "x", ⟨1⟩⟩ ∈ final.explorer.knowledge.summary.footprintAt ⟨2⟩ ⟨1⟩ := by
  have hstart : start twoWriters { maxDepth := 2 } 0 =
      .ok (initial twoWriters { maxDepth := 2 } 0) :=
    start_eq_ok_iff.mpr ⟨by decide +kernel, rfl⟩
  have hfound : let explored := (initial twoWriters { maxDepth := 2 } 0).explore
      explored.2 = .ok .complete ∧
        (∃ recorded ∈ explored.1.explorer.knowledge.log.footprint? ⟨⟨0⟩, 1⟩,
          ⟨.write, "x", ⟨1⟩⟩ ∈ recorded) ∧
          explored.1.explorer.knowledge.log.transition? ⟨⟨0⟩, 1⟩ =
            some ⟨⟨1⟩, ⟨2⟩, some ⟨2⟩⟩ := by
    decide +kernel
  obtain ⟨hcomplete, ⟨recorded, hrecorded, haccess⟩, htransition⟩ := hfound
  have hexplored : (initial twoWriters { maxDepth := 2 } 0).explore =
      ((initial twoWriters { maxDepth := 2 } 0).explore.1, .ok .complete) :=
    Prod.ext rfl hcomplete
  obtain ⟨transition, hthere, hsummarised⟩ :=
    recorded_accesses_summarised hstart rfl hexplored hrecorded
  obtain rfl := Option.some.inj (htransition.symm.trans hthere)
  exact ⟨_, _, recorded, hstart, hexplored, hrecorded, haccess, hsummarised _ haccess⟩

end Search

end EventOrder
