import EventOrder.Proofs.Decision.Windows
import EventOrder.Proofs.Explorer.Poised
import EventOrder.Proofs.Race.Gathering

/-!
# Executions that follow their orders

The history says for every execution that made a decision which order of events it follows. This
file keeps up that it does follow it, round and round, and that no order in force or waiting has an
event twice. Then every stretch of an execution brings up each event as often as in whole rounds,
rounded down or up.
-/

namespace EventOrder

/-- An order that can be followed round and round: it has events, and none of them twice. -/
def Schedule.IsRound (order : List Event) : Prop := order ≠ [] ∧ order.Nodup

/-- Moving an event to the front of an order leaves none of its events twice. -/
theorem BacktrackPoint.isRound_reorder {reference : List Event} (h : reference.Nodup)
    (state : StateId) (first : Event) (conflict : TransitionRef) :
    Schedule.IsRound (reorder state first reference conflict).schedule :=
  ⟨List.cons_ne_nil _ _, List.nodup_cons.mpr ⟨by simp, h.filter _⟩⟩

/-- The execution that an entry of the history names has made its first decision, and all of its
decisions were for the events due in the order that it is known for. -/
structure ExecutionLog.Follows (log : ExecutionLog) (start : ExecutionStart) : Prop where
  /-- The first decision was made. -/
  begun : ∃ transition, log.taken? ⟨start.execution, 0⟩ = some transition
  /-- Every decision was for the event due. -/
  due : ∀ position transition, log.taken? ⟨start.execution, position⟩ = some transition →
    (Schedule.mk start.schedule).eventAt? position = some transition.event

/-- Only the transitions taken matter to which order an execution follows. -/
theorem ExecutionLog.Follows.congr {log later : ExecutionLog} {start : ExecutionStart}
    (h : log.Follows start) (htaken : ∀ place, later.taken? place = log.taken? place) :
    later.Follows start :=
  ⟨by rw [htaken]; exact h.begun, fun position transition hplace =>
    h.due position transition (by rw [← htaken]; exact hplace)⟩

namespace Explorer

variable {σ φ : Type} {explorer later : Explorer σ φ}

/-- Every execution that made a decision follows the order it is known for, and every order in
force or waiting can be followed. -/
structure Regular (explorer : Explorer σ φ) : Prop where
  /-- The order in force has no event twice. -/
  distinct : explorer.schedule.order.Nodup
  /-- The orders that wait can be followed. -/
  waiting : ∃ waiting taken, explorer.knowledge.backlog.Ledger waiting taken ∧
    ∀ point ∈ waiting, Schedule.IsRound point.schedule
  /-- Every execution that took a transition is in the history. -/
  listed : ∀ place transition, explorer.knowledge.log.taken? place = some transition →
    ∃ start ∈ explorer.history, start.execution = place.execution
  /-- Every execution in the history follows its order, which can be followed. -/
  follows : ∀ start ∈ explorer.history,
    Schedule.IsRound start.schedule ∧ explorer.knowledge.log.Follows start
  /-- The execution under way is known for the order in force. -/
  current : ∀ start ∈ explorer.history,
    start.execution = explorer.current → start.schedule = explorer.schedule.order

/-- An explorer stays regular while it takes no transition, if it keeps to the execution and the
order under way or goes on to an execution that has taken no transition. -/
theorem Regular.change (h : explorer.Regular) (hdistinct : later.schedule.order.Nodup)
    (hwaiting : ∃ waiting taken, later.knowledge.backlog.Ledger waiting taken ∧
      ∀ point ∈ waiting, Schedule.IsRound point.schedule)
    (htaken : ∀ place, later.knowledge.log.taken? place = explorer.knowledge.log.taken? place)
    (hhistory : later.history = explorer.history)
    (hcurrent : later.current = explorer.current ∧ later.schedule = explorer.schedule ∨
      explorer.knowledge.log.taken? ⟨later.current, 0⟩ = none) : later.Regular where
  distinct := hdistinct
  waiting := hwaiting
  listed place transition hplace := by
    rw [hhistory]
    exact h.listed place transition (by rw [← htaken]; exact hplace)
  follows start hstart :=
    (h.follows start (hhistory ▸ hstart)).imp_right fun hfollows => hfollows.congr htaken
  current start hstart hid := by
    rw [hhistory] at hstart
    rcases hcurrent with ⟨hsame, horder⟩ | hidle
    · rw [horder]
      exact h.current start hstart (hid.trans hsame)
    · obtain ⟨transition, hbegun⟩ := (h.follows start hstart).2.begun
      rw [hid, hidle] at hbegun
      exact absurd hbegun (by simp)

/-- While the order in force has no events, the execution under way has taken no transition. -/
theorem Regular.taken?_of_order_eq_nil (h : explorer.Regular)
    (hempty : explorer.schedule.order = []) (position : Nat) :
    explorer.knowledge.log.taken? ⟨explorer.current, position⟩ = none := by
  rw [Option.eq_none_iff_forall_ne_some]
  intro transition htaken
  obtain ⟨start, hstart, hid⟩ := h.listed _ transition htaken
  exact (h.follows start hstart).1.1 ((h.current start hstart hid).trans hempty)

/-- What is gathered under an order without repetitions leaves the explorer regular. -/
theorem Regular.gathers (h : explorer.Regular) {stands : TransitionRef → Prop}
    {knowledge : Knowledge}
    (hgathers : explorer.knowledge.Gathers stands explorer.schedule.order knowledge) :
    ({ explorer with knowledge } : Explorer σ φ).Regular := by
  refine h.change h.distinct ?_ (fun place => by rw [hgathers.log_eq]) rfl (Or.inl ⟨rfl, rfl⟩)
  obtain ⟨waiting, taken, hledger, hrounds⟩ := h.waiting
  obtain ⟨more, hmore, hgathered⟩ := hgathers.ledger waiting taken hledger
  refine ⟨waiting ++ more, taken, hmore, fun point hpoint => ?_⟩
  rcases List.mem_append.mp hpoint with hold | hnew
  · exact hrounds point hold
  · obtain ⟨-, transition, event, -, hreorder⟩ := hgathered point hnew
    rw [hreorder]
    exact BacktrackPoint.isRound_reorder h.distinct _ _ _

/-- The execution under way has taken no transition before its first decision. -/
theorem taken?_of_live {execution : Execution}
    (hget : explorer.knowledge.log.get? explorer.current = some execution)
    (hlive : execution.Live 0) (position : Nat) :
    explorer.knowledge.log.taken? ⟨explorer.current, position⟩ = none := by
  rw [ExecutionLog.taken?_of_get? hget]
  simp [hlive.fresh]

section Recording

variable {execution : Execution}

/-- The executions known for the current one follow the order in force, once a decision is
recorded. -/
private theorem Regular.current_noted (h : explorer.Regular) {view : HostView σ} {point : PointId}
    {event : Event} : ∀ start ∈ (explorer.noted view point event).history,
      start.execution = explorer.current → start.schedule = explorer.schedule.order := by
  intro start hstart hid
  rcases mem_history_noted.mp hstart with hold | ⟨-, rfl⟩
  · exact h.current start hold hid
  · rfl

/-- Recording a decision for the event that is due makes every execution follow its order on. -/
private theorem Regular.follows_noted (h : explorer.Regular)
    (hget : explorer.knowledge.log.get? explorer.current = some execution)
    (hlive : execution.Live explorer.counter) {view : HostView σ} {point : PointId} {event : Event}
    (hdue : explorer.schedule.eventAt? explorer.counter = some event) {start : ExecutionStart}
    (hstart : start ∈ (explorer.noted view point event).history) :
    (explorer.noted view point event).knowledge.log.Follows start := by
  have htaken := taken?_noted hget hlive.toMade view point event
  refine ⟨?_, fun position transition hplace => ?_⟩
  · rw [htaken]
    split
    · exact ⟨_, rfl⟩
    · rename_i hother
      rcases mem_history_noted.mp hstart with hold | ⟨hcounter, rfl⟩
      · exact (h.follows start hold).2.begun
      · exact absurd (by rw [hcounter]) hother
  · rw [htaken] at hplace
    split at hplace
    · -- The transition just taken is the one due, since the execution is known for this order.
      rename_i hnew
      obtain ⟨hid, rfl⟩ := TransitionRef.mk.inj hnew
      rw [h.current_noted start hstart hid, ← Option.some.inj hplace]
      exact hdue
    · rcases mem_history_noted.mp hstart with hold | ⟨hcounter, rfl⟩
      · exact (h.follows start hold).2.due position transition hplace
      · rw [taken?_of_live hget (hcounter ▸ hlive)] at hplace
        exact absurd hplace (by simp)

/-- Recording a decision for the event that is due leaves the explorer regular. -/
theorem Regular.noted (h : explorer.Regular)
    (hget : explorer.knowledge.log.get? explorer.current = some execution)
    (hlive : execution.Live explorer.counter) (view : HostView σ) (point : PointId) {event : Event}
    (hdue : explorer.schedule.eventAt? explorer.counter = some event) :
    (explorer.noted view point event).Regular := by
  have hround : Schedule.IsRound explorer.schedule.order := by
    refine ⟨fun hempty => ?_, h.distinct⟩
    simp [Schedule.eventAt?, hempty] at hdue
  have hthere : ∃ start ∈ (explorer.noted view point event).history,
      start.execution = explorer.current := by
    by_cases hcounter : explorer.counter = 0
    · exact ⟨_, mem_history_noted.mpr (Or.inr ⟨hcounter, rfl⟩), rfl⟩
    · obtain ⟨transition, hbefore⟩ := ExecutionLog.taken?_of_made hget hlive.toMade
        (Nat.pos_of_ne_zero hcounter)
      obtain ⟨start, hstart, hid⟩ := h.listed _ transition hbefore
      exact ⟨start, mem_history_noted.mpr (Or.inl hstart), hid⟩
  refine ⟨h.distinct, h.waiting, fun place transition hplace => ?_,
    fun start hstart => ⟨?_, h.follows_noted hget hlive hdue hstart⟩, h.current_noted⟩
  · rw [taken?_noted hget hlive.toMade] at hplace
    split at hplace
    · rename_i hnew
      rw [hnew]
      exact hthere
    · obtain ⟨start, hstart, hid⟩ := h.listed place transition hplace
      exact ⟨start, mem_history_noted.mpr (Or.inl hstart), hid⟩
  · rcases mem_history_noted.mp hstart with hold | ⟨-, rfl⟩
    · exact (h.follows start hold).1
    · exact hround

end Recording

/-- Every execution that made a decision is in the history. -/
theorem Regular.listed_of_decisions_ne_zero (h : explorer.Regular) {id : ExecutionId}
    {execution : Execution} (hget : explorer.knowledge.log.get? id = some execution)
    (hmade : execution.decisions ≠ 0) :
    ∃ start ∈ explorer.history, start.execution = id := by
  unfold Execution.decisions at hmade
  split at hmade
  · exact absurd rfl hmade
  · rename_i hgoes
    have hbound := Nat.pos_of_ne_zero hmade
    refine h.listed ⟨id, 0⟩ execution.trace[0] ?_
    rw [ExecutionLog.taken?_of_get? hget]
    simp [hgoes, hbound]

/-- Every execution in the history brings up the events of its order round and round, and so over
any stretch each of them as often as in whole rounds, rounded down or up. -/
theorem Regular.stretches_of_mem_history (h : explorer.Regular) {start : ExecutionStart}
    (hstart : start ∈ explorer.history) :
    start.schedule ≠ [] ∧ start.schedule.Nodup ∧
      ∃ execution, explorer.knowledge.log.get? start.execution = some execution ∧
        execution.trace ≠ #[] ∧
        (∀ position transition, execution.trace[position]? = some transition →
          start.schedule[position % start.schedule.length]? = some transition.event) ∧
        ∀ first length, first + length ≤ execution.trace.size → ∀ event ∈ start.schedule,
          let stretch := ((execution.trace.toList.map (·.event)).drop first).take length
          stretch.count event = length / start.schedule.length ∨
            stretch.count event =
              (length + start.schedule.length - 1) / start.schedule.length := by
  obtain ⟨⟨hsome, hdistinct⟩, ⟨transition, hbegun⟩, hdue⟩ := h.follows start hstart
  obtain ⟨execution, hget, htaken⟩ := Option.bind_eq_some_iff.mp hbegun
  have hgoes : execution.fresh = false := by
    cases hfresh : execution.fresh with
    | true => simp [hfresh] at htaken
    | false => rfl
  have hfirst : execution.trace[0]? = some transition := by simpa [hgoes] using htaken
  have hfollows (position : Nat) (transition : Transition)
      (hthere : execution.trace[position]? = some transition) :
      start.schedule[position % start.schedule.length]? = some transition.event := by
    refine hdue position transition ?_
    rw [ExecutionLog.taken?_of_get? hget]
    simp [hgoes, hthere]
  refine ⟨hsome, hdistinct, execution, hget, ?_, hfollows, ?_⟩
  · intro hempty
    simp [hempty] at hfirst
  · intro first length hbound event hevent stretch
    have hstretch : stretch = (Schedule.mk start.schedule).due first length := by
      refine Schedule.take_drop_eq_due (fun position event hthere => ?_) (by simpa using hbound)
      rw [List.getElem?_map, Array.getElem?_toList, Option.map_eq_some_iff] at hthere
      obtain ⟨transition, hthere, rfl⟩ := hthere
      exact hfollows position transition hthere
    rw [hstretch]
    exact Schedule.count_due hdistinct hevent first length

end Explorer

end EventOrder
