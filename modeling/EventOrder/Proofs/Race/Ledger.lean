import EventOrder.Race.Backlog
import Mathlib.Algebra.BigOperators.Group.List.Lemmas
import Mathlib.Data.List.Nodup

/-!
# The ledger of the backlog

The backlog is read as two lists: the points that wait, in the order admitted, and the points that
were taken off it. Admitting appends to the first list, taking moves a point from the first to the
second, and over both lists no state and first event come up twice.
-/

namespace EventOrder

/-- The state and the first event of a backtrack point. -/
def BacktrackPoint.firing (point : BacktrackPoint) : Firing :=
  ⟨point.state, point.first?.getD ⟨0⟩⟩

/-- A backlog seen as the points that wait and the points taken off it, both in order. -/
structure Backlog.Ledger (backlog : Backlog) (waiting taken : List BacktrackPoint) : Prop where
  /-- At each state the waiting points stand in the order admitted. -/
  pendingAt : ∀ state, backlog.pendingAt state = waiting.filter (·.state = state)
  /-- The states and first events ever admitted are those of the two lists. -/
  constructed : ∀ firing, firing ∈ backlog.constructed ↔ firing ∈ (taken ++ waiting).map (·.firing)
  /-- Every admitted point is in one of the lists. -/
  created : backlog.created = taken.length + waiting.length
  /-- No state and first event were admitted twice. -/
  distinct : ((taken ++ waiting).map (·.firing)).Nodup

namespace Backlog

/-- Nothing waits and nothing was taken at the start. -/
theorem ledger_empty : empty.Ledger [] [] where
  pendingAt state := by simp [Backlog.pendingAt, empty]
  constructed firing := by simp [empty]
  created := rfl
  distinct := List.nodup_nil

/-- The line that waits at a state after one more point was let in there. -/
private theorem pendingAt_insert (backlog : Backlog) (line : WaitingLine) (state other : StateId) :
    ({ backlog with pending := backlog.pending.insert state line } : Backlog).pendingAt other =
      if state = other then line.toList else backlog.pendingAt other := by
  simp only [Backlog.pendingAt, Std.ExtTreeMap.getElem?_insert, Std.compare_eq_iff_eq]
  split <;> rfl

/-- The line that waits at a state after the line of some state was removed. -/
private theorem pendingAt_erase (backlog : Backlog) (state other : StateId) :
    ({ backlog with pending := backlog.pending.erase state } : Backlog).pendingAt other =
      if state = other then [] else backlog.pendingAt other := by
  simp only [Backlog.pendingAt, Std.ExtTreeMap.getElem?_erase, Std.compare_eq_iff_eq]
  split <;> rfl

/-- The line that waits at a state after the oldest point was taken off the line of some state. -/
private theorem pendingAt_shorten (backlog : Backlog) (line : WaitingLine) (state other : StateId) :
    ({ backlog with
        pending :=
          match line.rest? with
          | some rest => backlog.pending.insert state rest
          | none => backlog.pending.erase state } : Backlog).pendingAt other =
      if state = other then line.later else backlog.pendingAt other := by
  cases hlater : line.later with
  | nil => simp only [WaitingLine.rest?, hlater, pendingAt_erase]
  | cons oldest later => simp only [WaitingLine.rest?, hlater, pendingAt_insert, WaitingLine.toList]

/-- A point whose state and first event were admitted before is refused. -/
theorem add_of_isConstructed {backlog : Backlog} {point : BacktrackPoint} {first : Event}
    (hfirst : point.first? = some first)
    (hconstructed : backlog.isConstructed point.state first = true) :
    backlog.add point = (false, backlog) := by
  simp [add, hfirst, hconstructed]

/-- A point whose state and first event are new waits behind all others of its state. -/
theorem pendingAt_add_of_new {backlog : Backlog} {point : BacktrackPoint} {first : Event}
    (hfirst : point.first? = some first)
    (hnew : backlog.isConstructed point.state first = false) (state : StateId) :
    (backlog.add point).2.pendingAt state =
      backlog.pendingAt state ++ [point].filter (·.state = state) := by
  simp only [Backlog.add, hfirst, hnew, Bool.false_eq_true, if_false, Backlog.pendingAt,
    Std.ExtTreeMap.getElem?_insert, Std.compare_eq_iff_eq]
  split
  · rename_i hstate
    subst hstate
    cases hline : backlog.pending[point.state]? with
    | none => simp [WaitingLine.toList]
    | some line => simp [WaitingLine.toList, WaitingLine.push]
  · rename_i hstate
    simp [hstate]

/-- Once a point was admitted or refused, its state and first event were admitted; nothing else
changes. -/
theorem isConstructed_add_iff {backlog : Backlog} {point : BacktrackPoint} {first : Event}
    (hfirst : point.first? = some first) {state : StateId} {event : Event} :
    (backlog.add point).2.isConstructed state event = true ↔
      backlog.isConstructed state event = true ∨ point.state = state ∧ first = event := by
  cases hconstructed : backlog.isConstructed point.state first with
  | true =>
    rw [add_of_isConstructed hfirst hconstructed]
    constructor
    · exact Or.inl
    · rintro (hold | ⟨rfl, rfl⟩)
      · exact hold
      · exact hconstructed
  | false =>
    simp only [add, hfirst, hconstructed, Bool.false_eq_true, if_false]
    simp only [isConstructed, Std.ExtTreeSet.contains_insert, Bool.or_eq_true, beq_iff_eq,
      Std.compare_eq_iff_eq, Firing.mk.injEq]
    exact or_comm

/-- Admitting a point takes none back. -/
theorem created_le_add (backlog : Backlog) (point : BacktrackPoint) :
    backlog.created ≤ (backlog.add point).2.created := by
  unfold add
  split
  · exact Nat.le_refl _
  · split
    · exact Nat.le_refl _
    · exact Nat.le_succ _

variable {backlog : Backlog} {waiting taken : List BacktrackPoint}

/-- The highest state is the one numbered highest of those that a line is kept for. -/
theorem highest?_eq_some_iff {state : StateId} :
    backlog.highest? = some state ↔
      state ∈ backlog.pending ∧ ∀ other ∈ backlog.pending, other.number ≤ state.number := by
  -- The keys ascend, so the last of them is above all others.
  have hlast {last : StateId} (h : backlog.highest? = some last) :
      last ∈ backlog.pending ∧ ∀ other ∈ backlog.pending, other.number ≤ last.number := by
    obtain ⟨before, hkeys⟩ := List.getLast?_eq_some_iff.mp h
    have hascend := Std.ExtTreeMap.ordered_keys (t := backlog.pending)
    rw [hkeys, List.pairwise_append] at hascend
    have hmem (other : StateId) : other ∈ backlog.pending ↔ other ∈ before ∨ other = last := by
      rw [← Std.ExtTreeMap.mem_keys, hkeys, List.mem_append, List.mem_singleton]
    refine ⟨(hmem last).mpr (Or.inr rfl), fun other hother => ?_⟩
    rcases (hmem other).mp hother with hbefore | rfl
    · have hless := hascend.2.2 other hbefore last (List.mem_singleton_self last)
      exact Nat.le_of_lt (Nat.compare_eq_lt.mp hless)
    · exact Nat.le_refl _
  refine ⟨hlast, fun ⟨hstate, habove⟩ => ?_⟩
  cases hhighest : backlog.highest? with
  | none =>
    have hkeys : backlog.pending.keys = [] := List.getLast?_eq_none_iff.mp hhighest
    rw [← Std.ExtTreeMap.mem_keys, hkeys] at hstate
    exact absurd hstate List.not_mem_nil
  | some last =>
    obtain ⟨hmem, hlower⟩ := hlast hhighest
    have hsame : last.number = state.number :=
      Nat.le_antisymm (habove last hmem) (hlower state hstate)
    cases last
    cases state
    simpa using hsame

/-- A backlog that nothing can be taken off is empty. -/
theorem isEmpty_of_pop?_eq_none (h : backlog.pop? = none) : backlog.isEmpty = true := by
  cases hhighest : backlog.highest? with
  | none =>
    have hkeys : backlog.pending.keys = [] := List.getLast?_eq_none_iff.mp hhighest
    rw [isEmpty, ← Std.ExtTreeMap.isEmpty_keys, hkeys]
    rfl
  | some state =>
    have hkey : state ∈ backlog.pending :=
      Std.ExtTreeMap.mem_keys.mp (List.mem_of_getLast? hhighest)
    simp [pop?, hhighest, Std.ExtTreeMap.getElem?_eq_some_getElem hkey] at h

/-- A point that is taken off the backlog was admitted all the same. -/
theorem constructed_of_pop? {point : BacktrackPoint} {rest : Backlog}
    (hpop : backlog.pop? = some (point, rest)) : rest.constructed = backlog.constructed := by
  obtain ⟨state, -, hpop⟩ := Option.bind_eq_some_iff.mp hpop
  obtain ⟨line, -, hpop⟩ := Option.bind_eq_some_iff.mp hpop
  have hrest := congrArg (fun popped : BacktrackPoint × Backlog => popped.2.constructed)
    (Option.some.inj hpop)
  exact hrest.symm

/-- The points that wait are those that wait at their states. -/
theorem Ledger.mem_waiting_iff (h : backlog.Ledger waiting taken) {point : BacktrackPoint} :
    point ∈ waiting ↔ point ∈ backlog.pendingAt point.state := by
  rw [h.pendingAt]
  simp

/-- A point whose state and first event are new is admitted and waits behind all others. -/
theorem Ledger.add_new (h : backlog.Ledger waiting taken) {point : BacktrackPoint} {first : Event}
    (hfirst : point.first? = some first)
    (hnew : backlog.isConstructed point.state first = false) :
    (backlog.add point).1 = true ∧
      (backlog.add point).2.Ledger (waiting ++ [point]) taken := by
  have hfiring : point.firing = ⟨point.state, first⟩ := by
    simp [BacktrackPoint.firing, hfirst]
  have hfresh : point.firing ∉ (taken ++ waiting).map (·.firing) := by
    rw [← h.constructed, hfiring]
    rw [← Std.ExtTreeSet.contains_iff_mem, Bool.not_eq_true]
    exact hnew
  have hpending := pendingAt_add_of_new hfirst hnew
  simp only [Backlog.add, hfirst, hnew, Bool.false_eq_true, if_false] at hpending
  simp only [Backlog.add, hfirst, hnew, Bool.false_eq_true, if_false, true_and]
  refine ⟨fun state => ?_, fun firing => ?_, ?_, ?_⟩
  · rw [List.filter_append, ← h.pendingAt state, hpending]
  · simp only [Std.ExtTreeSet.mem_insert, Std.compare_eq_iff_eq, h.constructed, ← hfiring,
      List.map_append, List.mem_append, List.map_cons, List.map_nil, List.mem_singleton]
    tauto
  · simp only [h.created, List.length_append, List.length_singleton]
    omega
  · rw [← List.append_assoc, List.map_append, List.nodup_append]
    refine ⟨h.distinct, by simp, ?_⟩
    intro firing hold other hpoint heq
    simp only [List.map_cons, List.map_nil, List.mem_singleton] at hpoint
    exact hfresh (hpoint ▸ heq ▸ hold)

/-- When all points let in so far are of a kind, they still are after one more of the kind was
admitted or refused. -/
theorem exists_ledger_add {kind : BacktrackPoint → Prop}
    (h : ∃ more, backlog.Ledger (waiting ++ more) taken ∧ ∀ point ∈ more, kind point)
    {point : BacktrackPoint} {first : Event} (hfirst : point.first? = some first)
    (hpoint : kind point) :
    ∃ more, (backlog.add point).2.Ledger (waiting ++ more) taken ∧
      ∀ other ∈ more, kind other := by
  obtain ⟨more, hledger, hkind⟩ := h
  cases hconstructed : backlog.isConstructed point.state first with
  | true =>
    rw [add_of_isConstructed hfirst hconstructed]
    exact ⟨more, hledger, hkind⟩
  | false =>
    refine ⟨more ++ [point], ?_, fun other hother => ?_⟩
    · rw [← List.append_assoc]
      exact (hledger.add_new hfirst hconstructed).2
    · rcases List.mem_append.mp hother with hold | hnew
      · exact hkind other hold
      · exact List.mem_singleton.mp hnew ▸ hpoint

/-- Nothing can be taken off exactly when no point waits. -/
theorem Ledger.pop?_eq_none_iff (h : backlog.Ledger waiting taken) :
    backlog.pop? = none ↔ waiting = [] := by
  constructor
  · intro hnone
    rw [List.eq_nil_iff_forall_not_mem]
    intro point hpoint
    have hmem := h.mem_waiting_iff.mp hpoint
    have hempty : backlog.pending = ∅ :=
      Std.ExtTreeMap.isEmpty_iff.mp (isEmpty_of_pop?_eq_none hnone)
    simp [Backlog.pendingAt, hempty] at hmem
  · rintro rfl
    cases hhighest : backlog.highest? with
    | none => simp [pop?, hhighest]
    | some state =>
      cases hline : backlog.pending[state]? with
      | none => simp [pop?, hhighest, hline]
      | some line =>
        have hempty := h.pendingAt state
        simp [Backlog.pendingAt, hline, WaitingLine.toList] at hempty

/-- Taking a point off the backlog moves it from the points that wait to the points taken. It waits
at the highest state, and it is the first of those that wait there. -/
theorem Ledger.pop? (h : backlog.Ledger waiting taken) {point : BacktrackPoint} {rest : Backlog}
    (hpop : backlog.pop? = some (point, rest)) :
    ∃ before after, waiting = before ++ point :: after ∧
      rest.Ledger (before ++ after) (taken ++ [point]) ∧
      backlog.highest? = some point.state ∧ ∀ other ∈ before, other.state ≠ point.state := by
  obtain ⟨state, hhighest, hpop⟩ := Option.bind_eq_some_iff.mp hpop
  obtain ⟨line, hline, hpop⟩ := Option.bind_eq_some_iff.mp hpop
  have holdest : line.oldest = point := congrArg Prod.fst (Option.some.inj hpop)
  have hrest := congrArg Prod.snd (Option.some.inj hpop)
  subst holdest
  have hhere : waiting.filter (·.state = state) = line.oldest :: line.later := by
    rw [← h.pendingAt state]
    simp [Backlog.pendingAt, hline, WaitingLine.toList]
  obtain ⟨before, after, hwaiting, hbefore, hstate, hafter⟩ := List.filter_eq_cons_iff.mp hhere
  simp only [decide_eq_true_eq] at hbefore hstate hafter
  refine ⟨before, after, hwaiting, ?_, hstate ▸ hhighest, hstate ▸ hbefore⟩
  have hearlier : before.filter (·.state = state) = [] := by
    simpa [List.filter_eq_nil_iff] using hbefore
  have hpermutation :
      ((taken ++ [line.oldest]) ++ (before ++ after)).Perm (taken ++ waiting) := by
    rw [List.append_assoc, hwaiting, List.singleton_append]
    exact List.Perm.append_left taken List.perm_middle.symm
  simp only at hrest
  rw [← hrest]
  refine ⟨fun other => ?_, fun firing => ?_, ?_, ?_⟩
  · refine (pendingAt_shorten backlog line state other).trans ?_
    rw [h.pendingAt]
    split
    · rename_i heq
      subst heq
      simp [hafter, hearlier]
    · rename_i hne
      simp [hwaiting, hstate, hne]
  · rw [h.constructed]
    exact (hpermutation.map _).mem_iff.symm
  · have hlength := hpermutation.length_eq
    simp only [List.length_append, List.length_singleton] at hlength ⊢
    have := h.created
    omega
  · exact (hpermutation.map _).nodup_iff.mpr h.distinct

/-- A line is kept for the states at which a point waits, and for no others. -/
theorem Ledger.mem_pending_iff (h : backlog.Ledger waiting taken) {state : StateId} :
    state ∈ backlog.pending ↔ ∃ point ∈ waiting, point.state = state := by
  constructor
  · intro hstate
    have hline := h.pendingAt state
    rw [Backlog.pendingAt, Std.ExtTreeMap.getElem?_eq_some_getElem hstate] at hline
    have holdest : backlog.pending[state].oldest ∈ waiting.filter (·.state = state) := by
      rw [← hline]
      exact List.mem_cons_self
    obtain ⟨hmem, hthere⟩ := List.mem_filter.mp holdest
    exact ⟨_, hmem, of_decide_eq_true hthere⟩
  · rintro ⟨point, hpoint, rfl⟩
    have hwaits := h.mem_waiting_iff.mp hpoint
    by_contra hnone
    simp [Backlog.pendingAt, Std.ExtTreeMap.getElem?_eq_none hnone] at hwaits

/-- Of the points at the highest state at which one waits, the oldest is taken off, and all others
wait as before. -/
structure Pops (backlog : Backlog) (next : BacktrackPoint) (rest : Backlog) : Prop where
  /-- No point waits at a higher state. -/
  highest : ∀ state, backlog.pendingAt state ≠ [] → state.number ≤ next.state.number
  /-- The point is the oldest of those at its state. -/
  pendingAt : backlog.pendingAt next.state = next :: rest.pendingAt next.state
  /-- Elsewhere the same points wait. -/
  elsewhere : ∀ state, state ≠ next.state → rest.pendingAt state = backlog.pendingAt state

/-- So points are taken off the backlog. -/
theorem Ledger.pops (h : backlog.Ledger waiting taken) {point : BacktrackPoint} {rest : Backlog}
    (hpop : backlog.pop? = some (point, rest)) : backlog.Pops point rest := by
  obtain ⟨before, after, hwaiting, hrest, hhighest, hbefore⟩ := h.pop? hpop
  refine ⟨fun state hsome => ?_, ?_, fun state hother => ?_⟩
  · refine (highest?_eq_some_iff.mp hhighest).2 state (h.mem_pending_iff.mpr ?_)
    rw [h.pendingAt] at hsome
    obtain ⟨waits, hwaits⟩ := List.exists_mem_of_ne_nil _ hsome
    obtain ⟨hmem, hthere⟩ := List.mem_filter.mp hwaits
    exact ⟨waits, hmem, of_decide_eq_true hthere⟩
  · have hnone : before.filter (·.state = point.state) = [] := by
      simpa [List.filter_eq_nil_iff] using hbefore
    rw [h.pendingAt, hrest.pendingAt, hwaiting]
    simp [hnone]
  · rw [h.pendingAt, hrest.pendingAt, hwaiting]
    simp [Ne.symm hother]

/-- Counting the points that wait state by state comes to all of them. -/
theorem Ledger.size_eq (h : backlog.Ledger waiting taken) : backlog.size = waiting.length := by
  have hlines : ∀ entry ∈ backlog.pending.toList,
      entry.2.toList.length = (waiting.map (·.state)).count entry.1 := by
    rintro ⟨state, line⟩ hentry
    have hline := h.pendingAt state
    rw [Backlog.pendingAt, Std.ExtTreeMap.mem_toList_iff_getElem?_eq_some.mp hentry] at hline
    have hlength := congrArg List.length hline
    simp only [Option.map_some, Option.getD_some] at hlength
    rw [hlength, List.count, List.countP_map, List.countP_eq_length_filter]
    congr
  have hkeys : backlog.pending.keys.Perm (waiting.map (·.state)).dedup := by
    rw [List.perm_ext_iff_of_nodup Std.ExtTreeMap.nodup_keys (List.nodup_dedup _)]
    intro state
    rw [List.mem_dedup, Std.ExtTreeMap.mem_keys, List.mem_map]
    exact h.mem_pending_iff
  calc backlog.size
      = (backlog.pending.toList.map fun entry => entry.2.toList.length).sum := by
        rw [Backlog.size, Std.ExtTreeMap.foldl_eq_foldl_toList, List.sum_eq_foldl, List.foldl_map]
    _ = (backlog.pending.keys.map fun state => (waiting.map (·.state)).count state).sum := by
        rw [List.map_congr_left hlines, ← Std.ExtTreeMap.map_fst_toList_eq_keys, List.map_map]
        rfl
    _ = waiting.length := by
        rw [(hkeys.map _).sum_nat, List.sum_map_count_dedup_eq_length, List.length_map]

end Backlog

end EventOrder
