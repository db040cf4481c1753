import EventOrder.Proofs.Race.Ledger

/-!
# The backlog as a roster

A roster is nothing but the points admitted so far, in the order admitted: those that wait and
those taken since. It admits a point that names a first event, unless an earlier one, waiting or
taken, has its state and first event. Of the points that wait at the highest state it hands out the
one admitted first. The backlog keeps a line of points for each state, the states and first events
admitted, and a count. Whatever is asked of it, it answers like the roster, and what it keeps agrees
with it.
-/

namespace EventOrder

/-- The points admitted so far. -/
structure Roster where
  /-- Those that wait, in the order admitted. -/
  waiting : List BacktrackPoint
  /-- Those that were taken, in the order taken. -/
  taken : List BacktrackPoint
deriving DecidableEq

namespace Roster

/-- The roster before any point. -/
def empty : Roster := ⟨[], []⟩

/-- Every point admitted so far. -/
def admitted (roster : Roster) : List BacktrackPoint := roster.taken ++ roster.waiting

/-- Whether an admitted point has the state and the first event. -/
def Lists (roster : Roster) (state : StateId) (first : Event) : Prop :=
  ∃ point ∈ roster.admitted, point.state = state ∧ point.first? = some first

instance (roster : Roster) (state : StateId) (first : Event) :
    Decidable (roster.Lists state first) :=
  inferInstanceAs (Decidable (∃ _ ∈ _, _))

/-- Admits a point with a first event, unless its state and first event are listed. -/
def add (roster : Roster) (point : BacktrackPoint) : Bool × Roster :=
  match point.first? with
  | none => (false, roster)
  | some first =>
    if roster.Lists point.state first then (false, roster)
    else (true, { roster with waiting := roster.waiting ++ [point] })

/-- The highest state at which a point waits. -/
def highest? (roster : Roster) : Option StateId :=
  (roster.waiting.map (·.state.number)).max?.map StateId.mk

/-- Takes the first point of those that wait at the highest state. -/
def pop? (roster : Roster) : Option (BacktrackPoint × Roster) := do
  let state ← roster.highest?
  let point ← roster.waiting.find? (·.state = state)
  return (point, ⟨roster.waiting.eraseP (·.state = state), roster.taken ++ [point]⟩)

end Roster

/-- A request to something that admits points and hands them out. -/
inductive PointRequest where
  /-- Admit this point. -/
  | add (point : BacktrackPoint)
  /-- Hand out the point to be tried next. -/
  | pop
deriving DecidableEq

/-- The answer to a request. -/
inductive PointAnswer where
  /-- Whether the point was admitted. -/
  | added (admitted : Bool)
  /-- The point handed out, if there was one. -/
  | popped (point : Option BacktrackPoint)
deriving DecidableEq

/-- Answers one request, by the given ways of admitting a point and of handing one out. -/
def PointRequest.answer {σ : Type} (add : σ → BacktrackPoint → Bool × σ)
    (pop? : σ → Option (BacktrackPoint × σ)) (kept : σ) : PointRequest → PointAnswer × σ
  | .add point => (.added (add kept point).1, (add kept point).2)
  | .pop =>
    match pop? kept with
    | none => (.popped none, kept)
    | some (point, rest) => (.popped (some point), rest)

/-- Answers requests one after the other. -/
def PointRequest.answers {σ : Type} (add : σ → BacktrackPoint → Bool × σ)
    (pop? : σ → Option (BacktrackPoint × σ)) (kept : σ) : List PointRequest → List PointAnswer × σ
  | [] => ([], kept)
  | request :: requests =>
    let (answer, kept) := request.answer add pop? kept
    let (rest, kept) := answers add pop? kept requests
    (answer :: rest, kept)

/-- What a backlog answers to requests, and what it keeps then. -/
def Backlog.answers (backlog : Backlog) : List PointRequest → List PointAnswer × Backlog :=
  PointRequest.answers Backlog.add Backlog.pop? backlog

/-- What a roster answers to requests, and what it keeps then. -/
def Roster.answers (roster : Roster) : List PointRequest → List PointAnswer × Roster :=
  PointRequest.answers Roster.add Roster.pop? roster

namespace Backlog

variable {backlog : Backlog} {roster : Roster}

/-- A backlog that keeps what a roster lists. -/
structure Mirrors (backlog : Backlog) (roster : Roster) : Prop where
  /-- The points that wait and those taken are those of the roster. -/
  ledger : backlog.Ledger roster.waiting roster.taken
  /-- Each of them names a first event. -/
  first?_isSome : ∀ point ∈ roster.admitted, point.first?.isSome = true

/-- Neither holds a point at the start. -/
theorem mirrors_empty : empty.Mirrors .empty where
  ledger := ledger_empty
  first?_isSome _ hpoint := absurd hpoint List.not_mem_nil

/-- The states and first events constructed are those listed. -/
theorem Mirrors.isConstructed_iff (h : backlog.Mirrors roster) (state : StateId) (first : Event) :
    backlog.isConstructed state first = true ↔ roster.Lists state first := by
  have hfiring (point : BacktrackPoint) (hpoint : point ∈ roster.admitted) :
      point.firing = ⟨state, first⟩ ↔ point.state = state ∧ point.first? = some first := by
    obtain ⟨event, hevent⟩ := Option.isSome_iff_exists.mp (h.first?_isSome point hpoint)
    simp [BacktrackPoint.firing, hevent]
  rw [isConstructed, Std.ExtTreeSet.contains_iff_mem, h.ledger.constructed, List.mem_map]
  exact exists_congr fun point => and_congr_right (hfiring point)

/-- No point waits exactly when none is listed as waiting. -/
theorem Mirrors.isEmpty_eq (h : backlog.Mirrors roster) :
    backlog.isEmpty = roster.waiting.isEmpty := by
  rw [Bool.eq_iff_iff, List.isEmpty_iff]
  constructor
  · intro hempty
    rw [isEmpty, Std.ExtTreeMap.isEmpty_iff] at hempty
    rw [List.eq_nil_iff_forall_not_mem]
    intro point hpoint
    have hline := h.ledger.mem_pending_iff.mpr ⟨point, hpoint, rfl⟩
    simp [hempty] at hline
  · intro hnone
    exact isEmpty_of_pop?_eq_none (h.ledger.pop?_eq_none_iff.mpr hnone)

/-- The highest state is the highest one at which a listed point waits. -/
theorem Mirrors.highest?_eq (h : backlog.Mirrors roster) : backlog.highest? = roster.highest? := by
  apply Option.ext
  intro state
  rw [highest?_eq_some_iff, Roster.highest?, Option.map_eq_some_iff]
  have hwaits {other : StateId} :
      other ∈ backlog.pending ↔ ∃ point ∈ roster.waiting, point.state = other :=
    h.ledger.mem_pending_iff
  constructor
  · rintro ⟨hstate, habove⟩
    refine ⟨state.number, List.max?_eq_some_iff.mpr ⟨?_, ?_⟩, rfl⟩
    · obtain ⟨point, hpoint, rfl⟩ := hwaits.mp hstate
      exact List.mem_map_of_mem hpoint
    · intro number hnumber
      obtain ⟨point, hpoint, rfl⟩ := List.mem_map.mp hnumber
      exact habove _ (hwaits.mpr ⟨point, hpoint, rfl⟩)
  · rintro ⟨number, hnumber, rfl⟩
    obtain ⟨hlisted, habove⟩ := List.max?_eq_some_iff.mp hnumber
    constructor
    · obtain ⟨point, hpoint, hpointNumber⟩ := List.mem_map.mp hlisted
      exact hwaits.mpr ⟨point, hpoint, congrArg StateId.mk hpointNumber⟩
    · intro other hother
      obtain ⟨point, hpoint, rfl⟩ := hwaits.mp hother
      exact habove _ (List.mem_map_of_mem hpoint)

/-- Both admit the same points. -/
theorem Mirrors.add (h : backlog.Mirrors roster) (point : BacktrackPoint) :
    (backlog.add point).1 = (roster.add point).1 ∧
      (backlog.add point).2.Mirrors (roster.add point).2 := by
  cases hfirst : point.first? with
  | none => simpa [Backlog.add, Roster.add, hfirst] using h
  | some first =>
    by_cases hlisted : roster.Lists point.state first
    · rw [add_of_isConstructed hfirst ((h.isConstructed_iff _ _).mpr hlisted)]
      simpa [Roster.add, hfirst, hlisted] using h
    · have hnew : backlog.isConstructed point.state first = false := by
        rwa [← Bool.not_eq_true, h.isConstructed_iff]
      obtain ⟨hadmitted, hledger⟩ := h.ledger.add_new hfirst hnew
      have hroster : roster.add point =
          (true, { roster with waiting := roster.waiting ++ [point] }) := by
        simp [Roster.add, hfirst, hlisted]
      rw [hadmitted, hroster]
      refine ⟨rfl, hledger, fun other hother => ?_⟩
      rw [Roster.admitted, ← List.append_assoc, List.mem_append, List.mem_singleton] at hother
      rcases hother with hold | rfl
      · exact h.first?_isSome other hold
      · simp [hfirst]

/-- If the backlog hands out no point, the roster has none. -/
theorem Mirrors.pop?_eq_none (h : backlog.Mirrors roster) (hpop : backlog.pop? = none) :
    roster.pop? = none := by
  have hnone := h.ledger.pop?_eq_none_iff.mp hpop
  simp [Roster.pop?, Roster.highest?, hnone]

/-- The point that the backlog hands out is the one that the roster hands out. -/
theorem Mirrors.pop?_eq_some (h : backlog.Mirrors roster) {point : BacktrackPoint}
    {rest : Backlog} (hpop : backlog.pop? = some (point, rest)) :
    ∃ later, roster.pop? = some (point, later) ∧ rest.Mirrors later := by
  -- No point before the one handed out waits at its state, so the roster finds the same one.
  obtain ⟨before, after, hwaiting, hrest, hhighest, hbefore⟩ := h.ledger.pop? hpop
  refine ⟨⟨before ++ after, roster.taken ++ [point]⟩, ?_, hrest, fun other hother => ?_⟩
  · have hfind : roster.waiting.find? (·.state = point.state) = some point := by
      rw [hwaiting, List.find?_eq_some_iff_append]
      exact ⟨by simp, before, after, rfl, by simpa using hbefore⟩
    have herase : roster.waiting.eraseP (·.state = point.state) = before ++ after := by
      rw [hwaiting, List.eraseP_append_right _ (by simpa using hbefore),
        List.eraseP_cons_of_pos (by simp)]
    rw [h.highest?_eq] at hhighest
    simp [Roster.pop?, hhighest, hfind, herase]
  · refine h.first?_isSome other ?_
    simp only [Roster.admitted, hwaiting, List.mem_append, List.mem_cons, List.not_mem_nil,
      or_false] at hother ⊢
    tauto

/-- One request is answered alike. -/
theorem Mirrors.answer (h : backlog.Mirrors roster) (request : PointRequest) :
    (request.answer Backlog.add Backlog.pop? backlog).1 =
        (request.answer Roster.add Roster.pop? roster).1 ∧
      (request.answer Backlog.add Backlog.pop? backlog).2.Mirrors
        (request.answer Roster.add Roster.pop? roster).2 := by
  cases request with
  | add point =>
    obtain ⟨hadmitted, hnext⟩ := h.add point
    exact ⟨congrArg PointAnswer.added hadmitted, hnext⟩
  | pop =>
    cases hpop : backlog.pop? with
    | none => simpa [PointRequest.answer, hpop, h.pop?_eq_none hpop] using h
    | some popped =>
      obtain ⟨later, hlater, hrest⟩ := h.pop?_eq_some hpop
      simpa [PointRequest.answer, hpop, hlater] using hrest

/-- All requests are answered alike. -/
theorem Mirrors.answers (h : backlog.Mirrors roster) (requests : List PointRequest) :
    (backlog.answers requests).1 = (roster.answers requests).1 ∧
      (backlog.answers requests).2.Mirrors (roster.answers requests).2 := by
  induction requests generalizing backlog roster with
  | nil => exact ⟨rfl, h⟩
  | cons request requests ih =>
    obtain ⟨hanswer, hnext⟩ := h.answer request
    obtain ⟨hrest, hlast⟩ := ih hnext
    exact ⟨congrArg₂ List.cons hanswer hrest, hlast⟩

/-- Whatever is requested of it, a backlog is a roster: it answers the same, and afterwards the
points that wait, at each state and in all, the highest state, the states and first events
constructed and the number of points created are those of the roster. A line is kept for a state
only while a point waits there. -/
theorem answers_like_roster (requests : List PointRequest) :
    ∃ answers backlog roster,
      empty.answers requests = (answers, backlog) ∧
      Roster.empty.answers requests = (answers, roster) ∧
      backlog.size = roster.waiting.length ∧
      backlog.isEmpty = roster.waiting.isEmpty ∧
      (∀ state, backlog.pendingAt state = roster.waiting.filter (·.state = state)) ∧
      (∀ state, state ∈ backlog.pending ↔ ∃ point ∈ roster.waiting, point.state = state) ∧
      backlog.highest? = roster.highest? ∧
      (∀ state first, backlog.isConstructed state first = true ↔ roster.Lists state first) ∧
      backlog.created = roster.waiting.length + roster.taken.length := by
  obtain ⟨hanswers, hlast⟩ := mirrors_empty.answers requests
  refine ⟨_, _, _, rfl, Prod.ext hanswers.symm rfl, hlast.ledger.size_eq, hlast.isEmpty_eq,
    hlast.ledger.pendingAt, fun _ => hlast.ledger.mem_pending_iff, hlast.highest?_eq,
    hlast.isConstructed_iff, ?_⟩
  exact hlast.ledger.created.trans (Nat.add_comm _ _)

end Backlog

end EventOrder
