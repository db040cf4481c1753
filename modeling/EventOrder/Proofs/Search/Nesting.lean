import EventOrder.Proofs.Program.Flat
import EventOrder.Proofs.Search.Exhaustion
import EventOrder.Proofs.Search.Moments

/-!
# Searches of programs without secondary decisions

A search does not depend on how the accesses of an event are distributed over secondary decisions,
because all of them are recorded at the place of the event's decision. So the search of a program
and the search of this program without its secondary decisions take the same turns.
-/

namespace EventOrder

/-- A turn as it would be taken by a search of another code. -/
def Turn.withCode {κ : Type} (code : Code) : Turn κ → Turn κ
  | .fired firing search next => .fired firing { search with code } next
  | .moved search next => .moved { search with code } next
  | .ended search outcome => .ended { search with code } outcome

namespace Search

variable {κ : Type} {search : Search} {code : Code}

/-- The search of another code that is otherwise the same. -/
def withCode (search : Search) (code : Code) : Search := { search with code }

/-- When no turn that is taken depends on the code, the run does not either. -/
theorem takeTurns_withCode {turn : Search → κ → Turn κ} {origin : Search} {first : κ}
    (hturn : ∀ later next, Reaches turn origin first later next →
      turn (later.withCode code) next = (turn later next).withCode code)
    {next : κ} (hreaches : Reaches turn origin first search next) (turns : Nat) :
    (search.withCode code).takeTurns turn turns next =
      ((search.takeTurns turn turns next).1.withCode code,
        (search.takeTurns turn turns next).2) := by
  induction turns generalizing search next with
  | zero => rfl
  | succ turns ih =>
    simp only [takeTurns, hturn search next hreaches]
    cases hcase : turn search next with
    | fired firing later rest => exact ih (hreaches.fired hcase)
    | moved later rest => exact ih (hreaches.moved hcase)
    | ended later outcome => rfl

/-- A code with as many events has the same events. -/
private theorem events_eq (h : search.code.Mimics code) : code.events = search.code.events := by
  simp only [Code.events, h.count]

/-- Opening a decision point that offers all events does not depend on what they do. -/
private theorem openPoint_withCode (h : search.code.Mimics code) :
    (search.withCode code).openPoint =
      (search.openPoint.1.withCode code, search.openPoint.2) := by
  simp only [openPoint, withCode, events_eq h]

/-- Nor does registering one. -/
theorem registerPoint_withCode (h : search.code.Mimics code) :
    (search.withCode code).registerPoint =
      (search.registerPoint.1.withCode code, search.registerPoint.2) := by
  simp only [registerPoint, openPoint_withCode h]
  rfl

/-- Events that do the same are executed alike when they are observed alike. -/
private theorem execute_withCode (h : search.code.Mimics code) (point : PointId) (event : Event)
    (hobserved : ((search.withCode code).observations point event).foldl
        (fun explorer observation => explorer.accessObserved observation.active observation.access)
        search.explorer =
      (search.observations point event).foldl
        (fun explorer observation => explorer.accessObserved observation.active observation.access)
        search.explorer) :
    (search.withCode code).execute point event = (search.execute point event).withCode code := by
  have hnext := h.next event search.machine.values
  simp only [Code.next] at hnext
  simp only [observations, withCode] at hobserved
  simp only [execute, withCode, hobserved, hnext]

/-- A turn of an exhaustive search depends only on what the events lead to. -/
private theorem expand_withCode (h : search.code.Mimics code)
    (hreducing : search.explorer.reducing = false) (frontier : Frontier) :
    (search.withCode code).expand frontier = (search.expand frontier).withCode code := by
  unfold expand
  cases frontier.events with
  | nil =>
    cases frontier.pending with
    | nil => rfl
    | cons values pending =>
      have hmoved : (search.moveTo values).code.Mimics code := h
      simp only [expandNext]
      rw [show (search.withCode code).moveTo values = (search.moveTo values).withCode code from rfl,
        openPoint_withCode hmoved]
      rfl
  | cons event events =>
    have hcounted : ({ search.explorer with statistics := search.explorer.statistics.count } :
        Explorer Values PatternFilter).reducing = false := hreducing
    simp only [show (search.withCode code).atLimit = search.atLimit from rfl]
    split
    · rfl
    · simp only [branch, moveTo, withCode, accept,
        Explorer.choiceAdvanced_of_not_reducing hreducing]
      rw [execute_of_not_reducing (by exact hcounted), execute_of_not_reducing (by exact hcounted)]
      simp only [List.foldl_nil, ← h.next]
      rfl

section Reduced

variable {point : DecisionPoint} {waiting taken : List BacktrackPoint}

/-- The explorer ends up the same however the accesses of the event are distributed that it let go
ahead. -/
private theorem foldl_observations_withCode (h : search.code.Mimics code)
    (hready : search.Ready point waiting taken) {event : Event}
    (houtcome : (search.consult point).outcome = .ok .proceed) :
    ((search.withCode code).observations (search.consult point).point.id event).foldl
        (fun explorer observation => explorer.accessObserved observation.active observation.access)
        (search.consult point).explorer =
      (search.observations (search.consult point).point.id event).foldl
        (fun explorer observation => explorer.accessObserved observation.active observation.access)
        (search.consult point).explorer := by
  obtain ⟨due, hdue, hat, hweighs, hconsults⟩ := hready.underway.consults
  rw [hready.consult_adopt] at hconsults
  cases hconsults with
  | movesOn hmoves => exact absurd houtcome hmoves
  | proceeds hrecorded hproceed hexplorer hid hdueNow =>
    obtain ⟨hgoing, hcounter, -, hposition⟩ := hready.underway.going hdue hrecorded hweighs
    have hobserved (code : Code) := Explorer.foldl_accessObserved hgoing.reducing hgoing.ended
      hcounter hposition ((search.withCode code).observations point.id event)
      (active_of_observationsOfAll (Or.inl rfl) (code.body event))
    have haccesses : ((search.withCode code).observations point.id event).filterMap (·.access) =
        ((search.withCode search.code).observations point.id event).filterMap (·.access) :=
      (h.accesses event point.id (.event point.id)).symm
    rw [hexplorer, hid, hobserved code, haccesses]
    exact (hobserved search.code).symm

/-- An event is executed alike when it is observed alike. -/
private theorem fire_withCode (h : search.code.Mimics code)
    (hobserved : ∀ event, point.current = some event →
      ((search.withCode code).observations point.id event).foldl
          (fun explorer observation =>
            explorer.accessObserved observation.active observation.access) search.explorer =
        (search.observations point.id event).foldl
          (fun explorer observation =>
            explorer.accessObserved observation.active observation.access) search.explorer) :
    (search.withCode code).fire point = (search.fire point).withCode code := by
  unfold fire
  cases hcurrent : point.current with
  | none => rfl
  | some event =>
    have hexecuted : (search.execute point.id event).code.Mimics code := h
    simp only [execute_withCode h point.id event (hobserved event hcurrent),
      registerPoint_withCode hexecuted]
    rfl

/-- A turn of a reduced search depends only on what the events lead to and on their accesses. -/
private theorem decide_withCode (h : search.code.Mimics code)
    (hready : search.Ready point waiting taken) :
    (search.withCode code).decide point = (search.decide point).withCode code := by
  unfold Search.decide
  by_cases hclosed : (search.machine.closed.contains point.id || !point.hasMore) = true
  · rw [if_pos hclosed]
    exact if_pos hclosed
  · rw [if_neg hclosed]
    refine (if_neg hclosed).trans ?_
    by_cases hlimit : search.atLimit = true
    · rw [if_pos hlimit]
      exact if_pos hlimit
    · rw [if_neg hlimit]
      refine (if_neg hlimit).trans ?_
      have hconsult : (search.withCode code).consult point = search.consult point := rfl
      have haccept : (search.withCode code).accept (search.consult point) =
          (search.accept (search.consult point)).withCode code := rfl
      simp only [hconsult, haccept]
      cases houtcome : (search.consult point).outcome with
      | error error => rfl
      | ok flow =>
        cases flow with
        | finished => rfl
        | restarted => rfl
        | proceed =>
          have haccepted : (search.accept (search.consult point)).code.Mimics code := h
          exact fire_withCode haccepted fun event _ =>
            foldl_observations_withCode h hready houtcome

/-- Whatever a reduced search comes to, it runs the same code there. -/
private theorem code_of_reaches {origin : Search} {first : DecisionPoint}
    (hready : origin.Ready first waiting taken)
    (hreaches : Reaches Search.decide origin first search point) : search.code = origin.code := by
  refine hreaches.keeps (P := fun later _ => later.code = origin.code) rfl
    fun between here hbefore hsame => ?_
  obtain ⟨waiting, taken, hthere⟩ := hready.of_reaches hbefore
  have hturns := hthere.turn
  generalize between.decide here = turn at hturns
  cases hturns with
  | fired => exact hsame
  | moved _ _ _ _ _ _ _ hadopt =>
    exact (congrArg Search.code hadopt).trans hsame
  | complete | stopped => trivial

end Reduced

/-- Codes that do the same have as many states and events. -/
private theorem bounds_withCode (h : search.code.Mimics code) :
    (search.withCode code).decisionBound = search.decisionBound ∧
      (search.withCode code).expansionBound = search.expansionBound := by
  have hbound : (search.withCode code).stateBound = search.stateBound := by
    simp only [stateBound, withCode, h.declarations]
  simp only [decisionBound, expansionBound, hbound]
  simp only [withCode, h.count, and_self]

/-- Searches that have something to reduce come to the same with codes that do the same. -/
private theorem reduced_withCode (h : search.code.Mimics code) {point : DecisionPoint}
    {waiting taken : List BacktrackPoint} (hready : search.Ready point waiting taken) :
    (search.withCode code).reduced point =
      ((search.reduced point).1.withCode code, (search.reduced point).2) := by
  unfold reduced
  rw [(bounds_withCode h).1]
  refine takeTurns_withCode (fun later next hreaches => ?_) .start _
  obtain ⟨waiting, taken, hthere⟩ := hready.of_reaches hreaches
  exact decide_withCode (code_of_reaches hready hreaches ▸ h) hthere

/-- So do searches that have nothing to reduce. -/
private theorem exhaustive_withCode (h : search.code.Mimics code)
    (hreducing : search.explorer.reducing = false) (point : DecisionPoint) :
    (search.withCode code).exhaustive point =
      ((search.exhaustive point).1.withCode code, (search.exhaustive point).2) := by
  unfold exhaustive
  rw [(bounds_withCode h).2]
  refine takeTurns_withCode (fun later next hreaches => ?_) .start _
  obtain ⟨hplain, hcode⟩ := hreaches.exhaustive hreducing
  exact expand_withCode (hcode ▸ h) hplain next

/-- The search of a program comes to the same with a code that does the same. -/
theorem explore_withCode {program : Program} {config : ExploreConfig} {limit : Nat}
    (hstart : start program config limit = .ok search) (h : search.code.Mimics code) :
    (search.withCode code).explore =
      (search.explore.1.withCode code, search.explore.2) := by
  simp only [explore, registerPoint_withCode h]
  rw [show (search.registerPoint.1.withCode code).explorer = search.registerPoint.1.explorer from
    rfl]
  have hcode : search.registerPoint.1.code = search.code := rfl
  by_cases hplain : config.stateReduction = false ∨ program.events = []
  · have hreducing : search.registerPoint.1.explorer.reducing = false := by
      rw [registerPoint_start_of_plain hstart hplain]
    simp only [hreducing, Bool.false_eq_true, if_false]
    exact exhaustive_withCode (hcode ▸ h) hreducing _
  · obtain ⟨hreduce, hevents⟩ := not_or.mp hplain
    have hunderway := underway_start hstart (Bool.eq_true_of_not_eq_false hreduce) hevents
    simp only [hunderway.explorer.reducing, if_true]
    exact reduced_withCode (hcode ▸ h) hunderway.ready

/-- Secondary decisions are transparent: the search of a well-formed program and the search of this
program without them, reduced or exhaustive, end alike, after as many events, with the same machine
and with the same explorer, that is, with the same states, history, traces, footprints, summary,
predecessors, graph of reached states and backtrack points; and the figures and files that they are
summed up in are the same. -/
theorem nesting_transparent {program : Program} {config : ExploreConfig} {limit : Nat}
    (hstart : start program config limit = .ok search) :
    ∃ flat, start program.flat config limit = .ok flat ∧
      flat.explore.2 = search.explore.2 ∧
        flat.explore.1.executed = search.explore.1.executed ∧
        flat.explore.1.machine = search.explore.1.machine ∧
        flat.explore.1.explorer = search.explore.1.explorer ∧
        ∀ (m : Type → Type) [Monad m] [LawfulMonad m] [FileStore m],
          (flat.run : m (Attempt Search SearchResult)) =
            (fun attempt => (attempt.1.withCode program.flat.code, attempt.2)) <$> search.run := by
  have hvalid := (start_eq_ok_iff.mp hstart).1
  have hcode : search.code.Mimics program.flat.code := by
    rw [(start_eq_ok_iff.mp hstart).2]
    exact program.mimics_flat
  have hflat : start program.flat config limit = .ok (search.withCode program.flat.code) := by
    refine start_eq_ok_iff.mpr ⟨program.violation?_flat.trans hvalid, ?_⟩
    rw [(start_eq_ok_iff.mp hstart).2]
    rfl
  have hexplore := explore_withCode hstart hcode
  refine ⟨_, hflat, by rw [hexplore], by rw [hexplore]; rfl, by rw [hexplore]; rfl,
    by rw [hexplore]; rfl, ?_⟩
  intro m _ _ _
  unfold run
  rw [hexplore]
  cases search.explore with
  | mk last outcome =>
    cases outcome with
    | error error => simp
    | ok outcome =>
      simp only [map_bind, map_pure]
      rfl

/-- Two writers of one variable, one of which writes after it left a secondary decision inside
another one. -/
def nestedWriters : Program where
  name := "nested writers"
  declarations := [⟨"x", ⟨1⟩, 0⟩, ⟨"y", ⟨1⟩, 0⟩]
  events := [⟨"one", [.nested [.nested [.read "y"], .write "x" 1]]⟩,
    ⟨"two", [.nested [], .write "x" 2, .nested [.copy "x" "y"]]⟩]
  filter := .empty

/-- Freed of its secondary decisions this is another program, and its search ends after the same
number of events with the same explorer. -/
theorem nesting_transparent_nestedWriters :
    ∃ search flat, start nestedWriters {} 0 = .ok search ∧
      nestedWriters.flat.events.map (·.operations) =
        [[.read "y", .write "x" 1], [.write "x" 2, .copy "x" "y"]] ∧
      start nestedWriters.flat {} 0 = .ok flat ∧
        flat.explore.1.executed = search.explore.1.executed ∧
        flat.explore.1.explorer = search.explore.1.explorer := by
  have hstart : start nestedWriters {} 0 = .ok (initial nestedWriters {} 0) :=
    start_eq_ok_iff.mpr ⟨by decide +kernel, rfl⟩
  obtain ⟨flat, hflat, -, hexecuted, -, hexplorer, -⟩ := nesting_transparent hstart
  exact ⟨_, flat, hstart, by decide +kernel, hflat, hexecuted, hexplorer⟩

end Search

end EventOrder
