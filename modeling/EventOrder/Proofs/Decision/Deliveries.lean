import EventOrder.Decision.Point

/-!
# What a decision point brings up

The host and the explorer share a decision point: one advances, rewinds and closes it, the other
rewrites its events, pre-selects one or puts another in force, in any order. What comes up at an
advance can be told from the operations since the last rewind alone: the event pre-selected since
the last advance, or else the next listed event, counted by the advances that met no pre-selection.
-/

namespace EventOrder.DecisionPoint

/-- An operation on a decision point. -/
inductive Operation where
  /-- Brings up the next event. -/
  | advance
  /-- Makes the event come up at the next advance. -/
  | preselect (event : Event)
  /-- Puts the event in force. -/
  | force (event : Event)
  /-- Replaces the offered events and rewinds. -/
  | offer (events : List Event)
  /-- Rewinds to the first offered event. -/
  | reset
  /-- Closes the point. -/
  | close
deriving DecidableEq

/-- The point after one operation. -/
def perform (point : DecisionPoint) : Operation → DecisionPoint
  | .advance => point.advance.2
  | .preselect event => point.preselect event
  | .force event => point.force event
  | .offer events => point.offer events
  | .reset => point.reset
  | .close => point.close

/-- The point after a history of operations, the last one first. -/
def after (point : DecisionPoint) : List Operation → DecisionPoint
  | [] => point
  | operation :: earlier => (point.after earlier).perform operation

/-- Whether the point was closed since the last rewind. -/
def isClosed : List Operation → Bool
  | [] | .offer _ :: _ | .reset :: _ => false
  | .close :: _ => true
  | .advance :: earlier | .preselect _ :: earlier | .force _ :: earlier => isClosed earlier

/-- The event that was pre-selected last, since the last advance or rewind. -/
def pending? : List Operation → Option Event
  | [] | .offer _ :: _ | .reset :: _ | .advance :: _ => none
  | .preselect event :: _ => some event
  | .force _ :: earlier | .close :: earlier => pending? earlier

/-- The events that are listed: those offered last, or at first. -/
def listed (first : List Event) : List Operation → List Event
  | [] => first
  | .offer events :: _ => events
  | .advance :: earlier | .preselect _ :: earlier | .force _ :: earlier | .reset :: earlier
  | .close :: earlier => listed first earlier

/-- How often the open point was advanced with no event pending, since the last rewind. -/
def turns : List Operation → Nat
  | [] | .offer _ :: _ | .reset :: _ => 0
  | .advance :: earlier =>
    if isClosed earlier = false ∧ pending? earlier = none then turns earlier + 1 else turns earlier
  | .preselect _ :: earlier | .force _ :: earlier | .close :: earlier => turns earlier

/-- The events that were pending when the open point was advanced, since the last rewind, in
order. -/
def prompts : List Operation → List Event
  | [] | .offer _ :: _ | .reset :: _ => []
  | .advance :: earlier =>
    if isClosed earlier = true then prompts earlier
    else prompts earlier ++ (pending? earlier).toList
  | .preselect _ :: earlier | .force _ :: earlier | .close :: earlier => prompts earlier

/-- An event that came up at an advance. -/
structure Arrival where
  /-- The event. -/
  event : Event
  /-- Whether an event was pending at the advance. -/
  preselected : Bool

/-- The events that came up since the last rewind, in order. -/
def arrivals (point : DecisionPoint) : List Operation → List Arrival
  | [] | .offer _ :: _ | .reset :: _ => []
  | .advance :: earlier =>
    point.arrivals earlier ++ ((point.after earlier).advance.1.map fun event =>
      ⟨event, (pending? earlier).isSome⟩).toList
  | .preselect _ :: earlier | .force _ :: earlier | .close :: earlier => point.arrivals earlier

variable {point other : DecisionPoint} {id : PointId} {first : List Event}
  {history : List Operation} {event : Event}

/-- A closed point stays as it is when it is advanced. -/
theorem advance_of_closed (hclosed : point.closed = true) : point.advance = (none, point) := by
  rw [advance, if_pos hclosed]

/-- A pre-selected event comes up and leaves the listed ones as they are. -/
theorem advance_of_preselected (hopen : point.closed = false)
    (hpreselected : point.preselected = some event) :
    point.advance = (some event, { point with preselected := none, current := some event }) := by
  simp [advance, hopen, hpreselected]

/-- Without a pre-selection the next listed event comes up. -/
theorem advance_of_offered (hopen : point.closed = false) (hpreselected : point.preselected = none)
    (hnext : point.offered[point.cursor]? = some event) :
    point.advance =
      (some event, { point with cursor := point.cursor + 1, current := some event }) := by
  simp [advance, hopen, hpreselected, hnext]

/-- Nothing comes up once all listed events did. -/
theorem advance_of_exhausted (hopen : point.closed = false)
    (hpreselected : point.preselected = none) (hnext : point.offered[point.cursor]? = none) :
    point.advance = (none, { point with current := none }) := by
  simp [advance, hopen, hpreselected, hnext]

/-- There is more to come just when the next advance brings up an event. -/
theorem hasMore_iff (point : DecisionPoint) :
    point.hasMore = true ↔ ∃ event, point.advance.1 = some event := by
  cases hclosed : point.closed with
  | true => simp [hasMore, hclosed, advance_of_closed hclosed]
  | false =>
    cases hpreselected : point.preselected with
    | some event =>
      simp [hasMore, hclosed, hpreselected, advance_of_preselected hclosed hpreselected]
    | none =>
      cases hnext : point.offered[point.cursor]? with
      | some event =>
        obtain ⟨hleft, -⟩ := List.getElem?_eq_some_iff.mp hnext
        simp [hasMore, hclosed, hleft, advance_of_offered hclosed hpreselected hnext]
      | none =>
        have hleft := List.getElem?_eq_none_iff.mp hnext
        simp [hasMore, hclosed, hpreselected, hleft,
          advance_of_exhausted hclosed hpreselected hnext]

/-- The point is as its history tells. A closed point keeps its pre-selection and its cursor, which
only a rewind makes matter again. -/
structure Tells (first : List Event) (history : List Operation) (point : DecisionPoint) : Prop where
  /-- The listed events are offered. -/
  offered_eq : point.offered = listed first history
  /-- The point is closed if it was closed since the last rewind. -/
  closed_eq : point.closed = isClosed history
  /-- The pending event is pre-selected. -/
  preselected_eq : isClosed history = false → point.preselected = pending? history
  /-- As many listed events have come up as there were turns, or all. -/
  cursor_eq : isClosed history = false →
    point.cursor = min (turns history) (listed first history).length

/-- A rewound point begins anew. -/
private theorem Tells.start (hclosed : isClosed history = false)
    (hpending : pending? history = none) (hturns : turns history = 0) :
    (start id (listed first history)).Tells first history where
  offered_eq := rfl
  closed_eq := hclosed.symm
  preselected_eq _ := hpending.symm
  cursor_eq _ := by rw [hturns, Nat.zero_min]; rfl

/-- Advancing an open point consumes the pending event or else the next listed one. -/
private theorem Tells.advance (h : point.Tells first history) :
    point.advance.2.Tells first (.advance :: history) := by
  obtain ⟨hoffered, hclosed, hpreselected, hcursor⟩ := h
  cases hopen : isClosed history with
  | true =>
    have hstays : isClosed (.advance :: history) = true := hopen
    rw [advance_of_closed (hclosed.trans hopen)]
    exact ⟨hoffered, hclosed, by simp [hstays], by simp [hstays]⟩
  | false =>
    have hpointOpen : point.closed = false := hclosed.trans hopen
    have hpointPending : point.preselected = pending? history := hpreselected hopen
    have hpointCursor : point.cursor = min (turns history) (listed first history).length :=
      hcursor hopen
    have hstaysOpen : isClosed (.advance :: history) = false := hopen
    have hturns : turns (.advance :: history) =
        if pending? history = none then turns history + 1 else turns history := by
      simp only [turns, hopen, true_and]
    cases hpending : pending? history with
    | some event =>
      rw [advance_of_preselected hpointOpen (hpointPending.trans hpending)]
      refine ⟨hoffered, hpointOpen.trans hstaysOpen.symm, fun _ => rfl, fun _ => ?_⟩
      rw [hturns, hpending]
      exact hpointCursor
    | none =>
      have hnone : point.preselected = none := hpointPending.trans hpending
      rw [if_pos hpending] at hturns
      cases hnext : point.offered[point.cursor]? with
      | some event =>
        obtain ⟨hbound, -⟩ := List.getElem?_eq_some_iff.mp hnext
        rw [advance_of_offered hpointOpen hnone hnext]
        refine ⟨hoffered, hpointOpen.trans hstaysOpen.symm, fun _ => hnone, fun _ => ?_⟩
        rw [hoffered] at hbound
        change point.cursor + 1 = min (turns (.advance :: history)) (listed first history).length
        omega
      | none =>
        -- The cursor stays behind the last event while the turns go on: it is their minimum.
        have hbound := List.getElem?_eq_none_iff.mp hnext
        rw [advance_of_exhausted hpointOpen hnone hnext]
        refine ⟨hoffered, hpointOpen.trans hstaysOpen.symm, fun _ => hnone, fun _ => ?_⟩
        rw [hoffered] at hbound
        change point.cursor = min (turns (.advance :: history)) (listed first history).length
        omega

/-- A point is as its history tells, whatever was done with it. -/
theorem tells_after (id : PointId) (first : List Event) (history : List Operation) :
    ((start id first).after history).Tells first history := by
  induction history with
  | nil => exact .start rfl rfl rfl
  | cons operation earlier ih =>
    cases operation with
    | advance => exact ih.advance
    | preselect event => exact ⟨ih.offered_eq, ih.closed_eq, fun _ => rfl, ih.cursor_eq⟩
    | force event => exact ⟨ih.offered_eq, ih.closed_eq, ih.preselected_eq, ih.cursor_eq⟩
    | offer events => exact .start rfl rfl rfl
    | reset =>
      have hoffered : ((start id first).after earlier).offered = listed first earlier :=
        ih.offered_eq
      rw [after, perform, reset, hoffered]
      exact .start rfl rfl rfl
    | close =>
      have hclosed : isClosed (.close :: earlier) = true := rfl
      exact ⟨ih.offered_eq, rfl, by simp [hclosed], by simp [hclosed]⟩

/-- What the next advance brings up is told by the history. -/
theorem Tells.advance_fst (h : point.Tells first history) :
    point.advance.1 =
      if isClosed history = true then none
      else (pending? history).or (listed first history)[turns history]? := by
  cases hopen : isClosed history with
  | true => rw [advance_of_closed (h.closed_eq.trans hopen), if_pos rfl]
  | false =>
    have hpointOpen : point.closed = false := h.closed_eq.trans hopen
    have hpointPending : point.preselected = pending? history := h.preselected_eq hopen
    rw [if_neg Bool.false_ne_true]
    cases hpending : pending? history with
    | some event =>
      rw [advance_of_preselected hpointOpen (hpointPending.trans hpending)]
      rfl
    | none =>
      -- Once all events came up, the turns go on and the cursor stays.
      have hsame : point.offered[point.cursor]? = (listed first history)[turns history]? := by
        rw [h.offered_eq, h.cursor_eq hopen]
        by_cases hleft : turns history < (listed first history).length
        · rw [Nat.min_eq_left (Nat.le_of_lt hleft)]
        · rw [Nat.min_eq_right (Nat.le_of_not_lt hleft),
            List.getElem?_eq_none (Nat.le_of_not_lt hleft), List.getElem?_eq_none (Nat.le_refl _)]
      have hnone : point.preselected = none := hpointPending.trans hpending
      rw [Option.none_or, ← hsame]
      cases hnext : point.offered[point.cursor]? with
      | some event => rw [advance_of_offered hpointOpen hnone hnext]
      | none => rw [advance_of_exhausted hpointOpen hnone hnext]

/-- The events that came up without a pre-selection are the listed ones, from the first on, and the
others are those that were pending. -/
theorem arrivals_eq (id : PointId) (first : List Event) (history : List Operation) :
    (((start id first).arrivals history).filter (!·.preselected)).map (·.event) =
        (listed first history).take (turns history) ∧
      (((start id first).arrivals history).filter (·.preselected)).map (·.event) =
        prompts history := by
  induction history with
  | nil => simp [arrivals, turns, prompts]
  | cons operation earlier ih =>
    cases operation with
    | advance =>
      rw [arrivals, (tells_after id first earlier).advance_fst, listed, turns, prompts]
      cases hopen : isClosed earlier with
      | true => simpa using ih
      | false =>
        cases hpending : pending? earlier with
        | some event => simpa using ih
        | none =>
          rw [List.filter_append, List.filter_append, List.map_append, List.map_append, ih.1, ih.2]
          simp only [Bool.false_eq_true, if_false, and_self, if_true, Option.none_or,
            List.take_add_one]
          cases (listed first earlier)[turns earlier]? <;> exact ⟨rfl, rfl⟩
    | preselect event => exact ih
    | force event => exact ih
    | offer events => simp [arrivals, turns, prompts]
    | reset => simp [arrivals, turns, prompts]
    | close => exact ih

/-- The points differ at most in the event in force. -/
def Agrees (point other : DecisionPoint) : Prop :=
  { point with current := none } = { other with current := none }

/-- Points that differ at most in the event in force bring up the same. -/
theorem Agrees.advance_fst (h : point.Agrees other) : point.advance.1 = other.advance.1 := by
  have hkeeps (point : DecisionPoint) :
      point.advance.1 = ({ point with current := none } : DecisionPoint).advance.1 := by
    unfold advance
    dsimp only
    split
    · rfl
    · split
      · rfl
      · split <;> rfl
  rw [hkeeps point, hkeeps other, h]

/-- No operation makes points differ in more than the event in force. -/
theorem Agrees.perform (h : point.Agrees other) (operation : Operation) :
    (point.perform operation).Agrees (other.perform operation) := by
  obtain ⟨id, offered, cursor, preselected, current, closed⟩ := point
  obtain ⟨otherId, otherOffered, otherCursor, otherPreselected, otherCurrent, otherClosed⟩ := other
  simp only [Agrees, mk.injEq, true_and] at h
  obtain ⟨rfl, rfl, rfl, rfl, rfl⟩ := h
  cases operation with
  | advance =>
    simp only [DecisionPoint.perform, advance]
    split
    · rfl
    · split
      · rfl
      · split <;> rfl
  | preselect event => rfl
  | force event => rfl
  | offer events => rfl
  | reset => rfl
  | close => rfl

/-- Nor does any history. -/
theorem Agrees.after (h : point.Agrees other) (history : List Operation) :
    (point.after history).Agrees (other.after history) := by
  induction history with
  | nil => exact h
  | cons operation earlier ih => exact ih.perform operation

/-- Whatever was done with a decision point: there is more to come just when the next advance brings
up an event. An advance brings up the pending event, or else the listed event whose turn it is, and
nothing once the point is closed; so the events that came up since the last rewind are the listed
ones, in order, from the first on, among those that were pending at their advance. A closed point is
left as it is by advancing it. Putting an event in force changes nothing else, then and later. -/
theorem after_delivers (id : PointId) (first : List Event) (history : List Operation) :
    let point := (start id first).after history
    (point.hasMore = true ↔ ∃ event, point.advance.1 = some event) ∧
    point.advance.1 =
      (if isClosed history = true then none
        else (pending? history).or (listed first history)[turns history]?) ∧
    (((start id first).arrivals history).filter (!·.preselected)).map (·.event) =
      (listed first history).take (turns history) ∧
    (((start id first).arrivals history).filter (·.preselected)).map (·.event) = prompts history ∧
    (isClosed history = true → point.advance = (none, point)) ∧
    ∀ event, point.force event = { point with current := some event } ∧
      ∀ later, ((point.force event).after later).advance.1 = (point.after later).advance.1 ∧
        ((point.force event).after later).hasMore = (point.after later).hasMore := by
  intro point
  have htells : point.Tells first history := tells_after id first history
  obtain ⟨hlisted, hprompts⟩ := arrivals_eq id first history
  refine ⟨point.hasMore_iff, htells.advance_fst, hlisted, hprompts, fun hclosed =>
    advance_of_closed (htells.closed_eq.trans hclosed), fun event => ⟨rfl, fun later => ?_⟩⟩
  have hagrees : ((point.force event).after later).Agrees (point.after later) :=
    Agrees.after (show (point.force event).Agrees point from rfl) later
  refine ⟨hagrees.advance_fst, ?_⟩
  rw [Bool.eq_iff_iff, hasMore_iff, hasMore_iff, hagrees.advance_fst]

end EventOrder.DecisionPoint
