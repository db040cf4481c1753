import EventOrder.Proofs.Race.Confined
import EventOrder.Proofs.Search.Recording
import EventOrder.Proofs.Search.Runs

/-!
# Independent events

When no two events of a program are dependent, a reduced search finds no conflict, whatever the
filter drops and however long it runs. It calls for no reordering and never starts over.
-/

namespace EventOrder.Search

variable {search : Search} {point : DecisionPoint} {waiting taken : List BacktrackPoint}
  {program : Program}

/-- Events of which no two are dependent keep apart. -/
private theorem apart_of_not_dependent
    (h : ∀ first second, ¬program.Dependent first second) :
    Knowledge.Apart program.Touches := by
  intro first second access other hne hfirst hsecond hfield _ hwrite
  exact h first second (Program.dependent_of_touches hne hfirst hsecond hfield.symm hwrite)

/-- Recording a decision attributes no access to an event. -/
private theorem confined_noted (h : search.Underway point waiting taken) {due : Event}
    (hconfined : search.explorer.knowledge.Confined program.Touches) :
    (search.explorer.noted search.machine.view point.id due).knowledge.Confined
      program.Touches where
  recorded place transition footprint htaken hfootprint := by
    rw [h.explorer.taken?_noted] at htaken
    rw [Explorer.footprint?_noted] at hfootprint
    split at htaken
    · rename_i hplace
      rw [hplace, h.explorer.footprint?_eq_none (Nat.le_refl _)] at hfootprint
      exact absurd hfootprint (by simp)
    · exact hconfined.recorded place transition footprint htaken hfootprint
  summarised := hconfined.summarised

/-- Weighing a decision calls for no reordering. -/
private theorem confined_weighed (h : search.Underway point waiting taken)
    (hapart : Knowledge.Apart program.Touches)
    (hconfined : search.explorer.knowledge.Confined program.Touches) {due : Event}
    {weighed : Explorer Values PatternFilter} (hweighs : search.Weighs point due weighed) :
    weighed.knowledge.Confined program.Touches ∧
      weighed.knowledge.backlog = search.explorer.knowledge.backlog := by
  cases hweighs with
  | matched _ hlearns => exact hconfined.of_learns hapart hlearns
  | recorded _ hlearns => exact (confined_noted h hconfined).of_learns hapart hlearns

/-- Executing the due event attributes no access to an event that does not perform it. -/
private theorem confined_advanced (h : search.Underway point waiting taken)
    (hvalid : program.violation? = none) (hcode : search.code = program.code)
    (hapart : Knowledge.Apart program.Touches)
    (hconfined : search.explorer.knowledge.Confined program.Touches) {due : Event}
    (hdue : due ∈ search.code.events) (hrecorded : search.matchesState = false)
    (hweighs : search.Weighs point due (search.weighed point)) :
    (search.advanced point due).explorer.knowledge.Confined program.Touches ∧
      (search.advanced point due).explorer.knowledge.backlog =
        search.explorer.knowledge.backlog := by
  obtain ⟨decisions, -, -, hunderway⟩ := (h.weighed hdue hweighs).underway
  obtain ⟨hweighed, hbacklog⟩ := confined_weighed h hapart hconfined hweighs
  obtain ⟨filter, log, predecessors, heq, -⟩ :=
    search.advanced_explorer point due hunderway.reducing
  have htaken := (h.advanced_same hdue hrecorded hweighs).2.2.2.2
  have hfootprint := h.footprint?_advanced hdue hrecorded hweighs
  refine ⟨⟨fun place transition footprint hplace hheld access haccess => ?_, ?_⟩, ?_⟩
  · rw [htaken] at hplace
    rw [hfootprint] at hheld
    split at hplace
    · rename_i hhere
      rw [hhere, h.explorer.footprint?_eq_none (Nat.le_refl _)] at hheld
      split at hheld
      · rw [← Option.some.inj hheld] at haccess
        rw [← Option.some.inj hplace]
        exact touches_of_mem_tracked hvalid hcode haccess
      · exact absurd hheld (by simp)
    · rename_i helsewhere
      rw [if_neg fun hboth => helsewhere hboth.1] at hheld
      exact hconfined.recorded place transition footprint hplace hheld access haccess
  · rw [heq]
    exact hweighed.summarised
  · rw [heq]
    exact hbacklog

/-- A search of events that keep apart never calls for a reordering. -/
private theorem created_takeTurns (h : search.Ready point [] [])
    (hvalid : program.violation? = none) (hcode : search.code = program.code)
    (hapart : Knowledge.Apart program.Touches)
    (hconfined : search.adopt.explorer.knowledge.Confined program.Touches) (turns : Nat) :
    (search.takeTurns Search.decide turns point).1.explorer.knowledge.backlog.created = 0 := by
  induction turns generalizing search point with
  | zero =>
    have hcreated := h.underway.ledger.created
    rw [search.knowledge_adopt] at hcreated
    exact hcreated
  | succ turns ih =>
    have hunderway := h.underway
    have hturn := h.turn
    simp only [takeTurns]
    generalize search.decide point = turn at hturn
    cases hturn with
    | @fired due hdue hat hrecorded hweighs hnew next more hafter =>
      obtain ⟨hconfined, hbacklog⟩ :=
        confined_advanced hunderway hvalid hcode hapart hconfined hdue hrecorded hweighs
      have hnone : more = [] := by
        have hcreated := hafter.ledger.created
        rw [hbacklog, hunderway.ledger.created] at hcreated
        exact List.eq_nil_of_length_eq_zero (by simpa using hcreated.symm)
      subst hnone
      exact ih hafter.ready hcode (hafter.adopt_eq.symm ▸ hconfined)
    | moved _ _ hweighs _ hpop =>
      have hbacklog := (confined_weighed hunderway hapart hconfined hweighs).2
      rw [hbacklog, hunderway.ledger.pop?_eq_none_iff.mpr rfl] at hpop
      exact absurd hpop (by simp)
    | complete _ _ hweighs _ _ hknowledge =>
      rw [hknowledge, (confined_weighed hunderway hapart hconfined hweighs).2]
      exact hunderway.ledger.created
    | @stopped last _ hadopt =>
      rw [← last.knowledge_adopt, hadopt]
      exact hunderway.ledger.created

/-- The reduced search of a program without dependent events admits no backtrack point. -/
theorem created_eq_zero_of_not_dependent {config : ExploreConfig} {limit : Nat}
    (hstart : start program config limit = .ok search) (hreduce : config.stateReduction = true)
    (hevents : program.events ≠ []) (h : ∀ first second, ¬program.Dependent first second) :
    search.explore.1.explorer.knowledge.backlog.created = 0 := by
  have hunderway := underway_start hstart hreduce hevents
  have hregistered := registerPoint_start hstart hreduce hevents
  rw [explore_eq hstart hreduce hevents]
  obtain ⟨hvalid, rfl⟩ := start_eq_ok_iff.mp hstart
  refine created_takeTurns hunderway.ready hvalid (by rw [hregistered]; rfl)
    (apart_of_not_dependent h) ?_ _
  rw [hunderway.adopt_eq, hregistered]
  refine ⟨fun place transition footprint htaken => ?_, fun state event footprint hentry => ?_⟩
  · rw [taken?_registered] at htaken
    exact absurd htaken (by simp)
  · exact absurd hentry (by
      simp [registered, Explorer.start, Knowledge.empty, Summary.get?, Summary.empty])

end EventOrder.Search
