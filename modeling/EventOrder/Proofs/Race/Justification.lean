import EventOrder.Proofs.Race.Gathering
import Mathlib.Logic.Relation

/-!
# Why backtrack points are queued

A walk queues a point only at a place that lies behind the one it started from, and only for a
conflict with what is recorded there. The accesses that cause the conflict are among those the walk
started with: on their way backwards accesses are taken out, never added. This holds for all
knowledge, whether it was gathered by an exploration or not.
-/

namespace EventOrder

/-- A later backlog in which these points wait behind those that waited before. They are the only
ones admitted in between, and none of them was admitted before. -/
structure Backlog.Extends (backlog : Backlog) (points : List BacktrackPoint) (later : Backlog) :
    Prop where
  /-- At each state the new points stand behind the old ones, in the order admitted. -/
  pendingAt : ∀ state,
    later.pendingAt state = backlog.pendingAt state ++ points.filter (·.state = state)
  /-- Nothing but the new points was admitted. -/
  isConstructed_iff : ∀ state first, later.isConstructed state first = true ↔
    backlog.isConstructed state first = true ∨
      ∃ point ∈ points, point.state = state ∧ point.first? = some first
  /-- Every new point was counted. -/
  created : later.created = backlog.created + points.length
  /-- The new points are new. -/
  fresh : ∀ point ∈ points, ∀ first, point.first? = some first →
    backlog.isConstructed point.state first = false

namespace Backlog

variable {backlog later last : Backlog} {points more : List BacktrackPoint}

/-- A backlog extends itself by no point. -/
theorem Extends.refl (backlog : Backlog) : backlog.Extends [] backlog where
  pendingAt state := by simp
  isConstructed_iff state first := by simp
  created := rfl
  fresh := by simp

/-- Extensions follow one another. -/
theorem Extends.trans (hfirst : backlog.Extends points later) (hthen : later.Extends more last) :
    backlog.Extends (points ++ more) last where
  pendingAt state := by
    rw [hthen.pendingAt, hfirst.pendingAt, List.filter_append, List.append_assoc]
  isConstructed_iff state first := by
    rw [hthen.isConstructed_iff, hfirst.isConstructed_iff]
    simp only [List.mem_append, or_and_right, exists_or, or_assoc]
  created := by
    rw [hthen.created, hfirst.created, List.length_append]
    omega
  fresh point hpoint first hschedule := by
    rcases List.mem_append.mp hpoint with hold | hnew
    · exact hfirst.fresh point hold first hschedule
    · have hlater := hthen.fresh point hnew first hschedule
      rw [← Bool.not_eq_true, hfirst.isConstructed_iff, not_or] at hlater
      exact Bool.not_eq_true _ ▸ hlater.1

/-- A point whose state and first event are new extends the backlog by itself. -/
theorem extends_add_of_new {point : BacktrackPoint} {first : Event}
    (hfirst : point.first? = some first)
    (hnew : backlog.isConstructed point.state first = false) :
    (backlog.add point).1 = true ∧ backlog.Extends [point] (backlog.add point).2 := by
  refine ⟨by simp [add, hfirst, hnew], pendingAt_add_of_new hfirst hnew, fun state event => ?_,
    by simp [add, hfirst, hnew], fun other hother event hevent => ?_⟩
  · rw [isConstructed_add_iff hfirst]
    simp [hfirst]
  · obtain rfl := List.mem_singleton.mp hother
    obtain rfl := Option.some.inj (hfirst.symm.trans hevent)
    exact hnew

end Backlog

namespace Knowledge

variable {knowledge later last : Knowledge} {place : TransitionRef} {footprint : Footprint}
  {reference : List Event} {point : BacktrackPoint} {points more : List BacktrackPoint}
  {kind : BacktrackPoint → Prop}

/-- A place is recorded as leading into the state of another place. -/
def StepsBack (knowledge : Knowledge) (place earlier : TransitionRef) : Prop :=
  ∃ transition, knowledge.log.transition? place = some transition ∧
    earlier ∈ knowledge.predecessors.of transition.state

/-- What justifies a backtrack point when accesses travel backwards from a place. -/
structure Justified (knowledge : Knowledge) (place : TransitionRef) (footprint : Footprint)
    (reference : List Event) (point : BacktrackPoint) : Prop where
  /-- The conflict lies where the accesses set out, or behind it. -/
  behind : Relation.ReflTransGen knowledge.StepsBack place point.conflict
  /-- The point reorders the state of the conflict for an event that was not taken there and was not
  called for in that state before. -/
  reorders : ∃ transition first, knowledge.log.transition? point.conflict = some transition ∧
    point.state = transition.state ∧ transition.event ≠ first ∧
      point.schedule = first :: reference.filter (· ≠ first) ∧
        knowledge.backlog.isConstructed point.state first = false
  /-- One of the accesses conflicts with those recorded there. -/
  conflicts : ∃ recorded, knowledge.log.footprint? point.conflict = some recorded ∧
    ∃ access ∈ footprint, access.conflictsWith recorded = true

/-- Walks went on from some knowledge and queued these points, each of a kind. -/
structure Queues (knowledge : Knowledge) (kind : BacktrackPoint → Prop)
    (points : List BacktrackPoint) (later : Knowledge) : Prop where
  /-- The executions stay as they are. -/
  log_eq : later.log = knowledge.log
  /-- So do the predecessors. -/
  predecessors_eq : later.predecessors = knowledge.predecessors
  /-- The points wait behind those that waited before. -/
  backlog : knowledge.backlog.Extends points later.backlog
  /-- They are of the kind. -/
  kind_of_mem : ∀ point ∈ points, kind point

/-- Without a walk no point is queued. -/
theorem Queues.refl (knowledge : Knowledge) (kind : BacktrackPoint → Prop) :
    knowledge.Queues kind [] knowledge where
  log_eq := rfl
  predecessors_eq := rfl
  backlog := .refl knowledge.backlog
  kind_of_mem := by simp

/-- What was called for after walks had gone on was called for before as well. -/
theorem Queues.justified (h : knowledge.Queues kind points later)
    (hpoint : later.Justified place footprint reference point) :
    knowledge.Justified place footprint reference point where
  behind := by
    have hsame : later.StepsBack = knowledge.StepsBack := by
      funext place earlier
      simp only [StepsBack, h.log_eq, h.predecessors_eq]
    exact hsame ▸ hpoint.behind
  reorders := by
    obtain ⟨transition, first, htransition, hstate, hother, hschedule, hnew⟩ := hpoint.reorders
    rw [← Bool.not_eq_true, h.backlog.isConstructed_iff, not_or, Bool.not_eq_true] at hnew
    exact ⟨transition, first, h.log_eq ▸ htransition, hstate, hother, hschedule, hnew.1⟩
  conflicts := h.log_eq ▸ hpoint.conflicts

/-- Walks follow one another. -/
theorem Queues.trans (hfirst : knowledge.Queues kind points later)
    (hthen : later.Queues kind more last) : knowledge.Queues kind (points ++ more) last where
  log_eq := hthen.log_eq.trans hfirst.log_eq
  predecessors_eq := hthen.predecessors_eq.trans hfirst.predecessors_eq
  backlog := hfirst.backlog.trans hthen.backlog
  kind_of_mem point hpoint := by
    rcases List.mem_append.mp hpoint with hold | hnew
    · exact hfirst.kind_of_mem point hold
    · exact hthen.kind_of_mem point hnew

end Knowledge

namespace Walk

variable {walk : Walk} {knowledge : Knowledge} {root frame : Frame} {reference : List Event}
  {points : List BacktrackPoint}

/-- A walk under way from a root: the points it has queued are justified, its frames stand behind
the root, and what they carry is what is left of the root's accesses. -/
structure Justifying (walk : Walk) (knowledge : Knowledge) (root : Frame) (reference : List Event)
    (points : List BacktrackPoint) : Prop where
  /-- The points queued so far are justified. -/
  queues : knowledge.Queues (knowledge.Justified root.place root.footprint reference) points
    walk.knowledge
  /-- All of them were counted. -/
  created : walk.created = points.length
  /-- The frames stand where recorded predecessors lead to. -/
  behind : ∀ frame ∈ walk.stack, Relation.ReflTransGen knowledge.StepsBack root.place frame.place
  /-- They carry accesses of the root. -/
  carried : ∀ frame ∈ walk.stack, ∀ access ∈ frame.footprint, access ∈ root.footprint

/-- A walk that starts carries its root. -/
theorem justifying_start (knowledge : Knowledge) (root : Frame) (reference : List Event) :
    (start knowledge root).Justifying knowledge root reference [] where
  queues := .refl knowledge _
  created := rfl
  behind frame hframe := by
    rw [List.mem_singleton.mp hframe]
  carried frame hframe access haccess := by
    rwa [← List.mem_singleton.mp hframe]

/-- Absorbing what is left of the root's accesses sends on what is left of them. -/
private theorem Justifying.absorb (h : walk.Justifying knowledge root reference points)
    {transition : Transition}
    (htransition : knowledge.log.transition? frame.place = some transition)
    (hbehind : Relation.ReflTransGen knowledge.StepsBack root.place frame.place)
    (hcarried : ∀ access ∈ frame.footprint, access ∈ root.footprint) :
    (walk.absorb transition.state frame).Justifying knowledge root reference points where
  queues := ⟨h.queues.log_eq, h.queues.predecessors_eq, h.queues.backlog, h.queues.kind_of_mem⟩
  created := h.created
  behind other hother := by
    rcases mem_stack_absorb hother with hstack | ⟨hplace, -, -⟩
    · exact h.behind other hstack
    · exact hbehind.tail ⟨transition, htransition, h.queues.predecessors_eq ▸ hplace⟩
  carried other hother access haccess := by
    rcases mem_stack_absorb hother with hstack | ⟨-, -, hnews⟩
    · exact h.carried other hstack access haccess
    · rw [hnews] at haccess
      exact hcarried access (Summary.mem_absorb_fst.mp haccess).1

/-- Calling for a reordering at a conflict with the root's accesses queues a justified point, unless
the order was called for before. -/
private theorem Justifying.call (h : walk.Justifying knowledge root reference points)
    {transition : Transition} {recorded rest : Footprint}
    (htransition : knowledge.log.transition? frame.place = some transition)
    (hbehind : Relation.ReflTransGen knowledge.StepsBack root.place frame.place)
    (hcarried : ∀ access ∈ frame.footprint, access ∈ root.footprint)
    (hother : transition.event ≠ frame.event)
    (hrecorded : knowledge.log.footprint? frame.place = some recorded)
    (htake : frame.footprint.takeConflict? recorded = some rest) :
    ∃ more, (walk.call (.reorder transition.state frame.event reference frame.place)).Justifying
      knowledge root reference (points ++ more) := by
  let point := BacktrackPoint.reorder transition.state frame.event reference frame.place
  have hfirst : point.first? = some frame.event := rfl
  cases hnew : walk.knowledge.backlog.isConstructed point.state frame.event with
  | true =>
    refine ⟨[], ?_⟩
    rw [List.append_nil]
    have hsame : walk.call point = walk := by
      simp [Walk.call, Backlog.add_of_isConstructed hfirst hnew]
    rwa [hsame]
  | false =>
    obtain ⟨hadmitted, hextends⟩ := Backlog.extends_add_of_new hfirst hnew
    obtain ⟨access, haccess, hconflict, -⟩ := Footprint.exists_of_takeConflict?_eq_some htake
    have hbefore : knowledge.backlog.isConstructed point.state frame.event = false := by
      rw [← Bool.not_eq_true, h.queues.backlog.isConstructed_iff, not_or, Bool.not_eq_true] at hnew
      exact hnew.1
    have hjustified : knowledge.Justified root.place root.footprint reference point :=
      ⟨hbehind, ⟨transition, frame.event, htransition, rfl, hother, rfl, hbefore⟩,
        recorded, hrecorded, access, hcarried access haccess, hconflict⟩
    have hqueues : walk.knowledge.Queues (knowledge.Justified root.place root.footprint reference)
        [point] (walk.call point).knowledge :=
      ⟨rfl, rfl, hextends, fun other hmem => by rwa [List.mem_singleton.mp hmem]⟩
    refine ⟨[point], h.queues.trans hqueues, ?_, h.behind, h.carried⟩
    simp [Walk.call, point, hadmitted, h.created]

/-- A visit goes on justifying what it queues, if it does not fail. -/
private theorem Justifying.visit (h : walk.Justifying knowledge root reference points)
    {stack : List Frame} (hstack : walk.stack = frame :: stack) {next : Walk}
    (hvisit : { walk with stack }.visit reference frame = .ok next) :
    ∃ more, next.Justifying knowledge root reference (points ++ more) := by
  have hframe : frame ∈ walk.stack := by simp [hstack]
  have hbehind := h.behind frame hframe
  have hcarried := h.carried frame hframe
  have hpopped : ({ walk with stack } : Walk).Justifying knowledge root reference points :=
    ⟨h.queues, h.created, fun other hother => h.behind other (by simp [hstack, hother]),
      fun other hother => h.carried other (by simp [hstack, hother])⟩
  obtain ⟨transition, hplace, hnext⟩ := visit_cases hvisit
  have htransition : knowledge.log.transition? frame.place = some transition := by
    rw [← h.queues.log_eq]
    exact hplace
  rcases hnext with ⟨-, rfl⟩ | ⟨rest, hconflict, rfl⟩
  · refine ⟨[], ?_⟩
    rw [List.append_nil]
    exact hpopped.absorb htransition hbehind hcarried
  · obtain ⟨hother, recorded, hrecorded, htake⟩ := of_conflictRest?_eq_some hconflict
    replace hrecorded : knowledge.log.footprint? frame.place = some recorded := by
      rw [← h.queues.log_eq]
      exact hrecorded
    have hrest (access : Access) (haccess : access ∈ rest) : access ∈ root.footprint :=
      hcarried access (Footprint.mem_of_takeConflict?_eq_some htake haccess)
    obtain ⟨more, hcalled⟩ := hpopped.call htransition hbehind hcarried hother hrecorded htake
    exact ⟨more, hcalled.absorb htransition hbehind hrest⟩

end Walk

namespace Knowledge

variable {knowledge later : Knowledge} {place : TransitionRef} {reference : List Event}

/-- A walk queues justified points, and as many as it answers. -/
theorem propagate_queues (knowledge : Knowledge) (root : Frame) (reference : List Event) :
    ∃ points, knowledge.Queues (knowledge.Justified root.place root.footprint reference) points
        (knowledge.propagate root reference).1 ∧
      ∀ created, (knowledge.propagate root reference).2 = .ok created →
        created = points.length := by
  obtain ⟨points, hlast⟩ := Walk.run_keeps
    (motive := fun walk => ∃ points, walk.Justifying knowledge root reference points)
    (fun walk frame stack next hstack hvisit ⟨points, hwalk⟩ => by
      obtain ⟨more, hnext⟩ := hwalk.visit hstack hvisit
      exact ⟨points ++ more, hnext⟩)
    knowledge.walkBound ⟨[], Walk.justifying_start knowledge root reference⟩
  refine ⟨points, ?_⟩
  unfold propagate
  split <;> rename_i hrun <;> rw [hrun] at hlast
  · refine ⟨hlast.queues, fun created hcreated => ?_⟩
    rw [← Except.ok.inj hcreated, hlast.created]
  · exact ⟨hlast.queues, fun created hcreated => by simp at hcreated⟩

/-- The walk that queues a point when the events of a state are replayed against a place. It starts
from the entry that its event has once the events listed before were replayed. -/
def QueuedByReplay (knowledge : Knowledge) (state : StateId) (place : TransitionRef)
    (reference : List Event) (entry : Footprint) (point : BacktrackPoint) : Prop :=
  ∃ before event after current queued,
    knowledge.summary.eventsAt state = before ++ event :: after ∧
      current = (replay state place reference before knowledge 0).1 ∧
      current.summary.get? state event = some entry ∧
      current.backlog.Extends queued
        (current.propagate ⟨place, event, entry, true⟩ reference).1.backlog ∧
      point ∈ queued

/-- What justifies a backtrack point when the events of a state are replayed against a place. -/
def JustifiedByReplay (knowledge : Knowledge) (state : StateId) (place : TransitionRef)
    (reference : List Event) (point : BacktrackPoint) : Prop :=
  ∃ entry, knowledge.QueuedByReplay state place reference entry point ∧
    knowledge.Justified place entry reference point

/-- Replaying events and then others is replaying them all. -/
theorem replay_append (state : StateId) (place : TransitionRef)
    (reference before after : List Event) (knowledge : Knowledge) (created : Nat) :
    replay state place reference (before ++ after) knowledge created =
      match replay state place reference before knowledge created with
      | (later, .ok total) => replay state place reference after later total
      | (later, .error error) => (later, .error error) := by
  induction before generalizing knowledge created with
  | nil => rfl
  | cons event before ih =>
    rw [List.cons_append, replay, replay]
    cases knowledge.summary.get? state event with
    | none => exact ih knowledge created
    | some footprint =>
      dsimp only
      split
      · exact ih _ _
      · rfl

/-- Replaying what is left of the events of a state queues justified points, and as many as are
added to the count. -/
private theorem replay_queues {state : StateId} {before events : List Event} {current : Knowledge}
    {created : Nat} {points : List BacktrackPoint}
    (hevents : knowledge.summary.eventsAt state = before ++ events)
    (hbefore : replay state place reference before knowledge 0 = (current, .ok created))
    (h : knowledge.Queues (knowledge.JustifiedByReplay state place reference) points current)
    (hcreated : created = points.length) :
    ∃ more, knowledge.Queues (knowledge.JustifiedByReplay state place reference) (points ++ more)
        (replay state place reference events current created).1 ∧
      ∀ total, (replay state place reference events current created).2 = .ok total →
        total = (points ++ more).length := by
  induction events generalizing before current created points with
  | nil =>
    refine ⟨[], by simpa [replay] using h, fun total htotal => ?_⟩
    rw [← Except.ok.inj htotal, hcreated, List.append_nil]
  | cons event events ih =>
    have hlisted : knowledge.summary.eventsAt state = (before ++ [event]) ++ events := by
      rw [hevents, List.append_assoc, List.singleton_append]
    have hnext := replay_append state place reference before [event] knowledge 0
    rw [hbefore] at hnext
    simp only [replay] at hnext ⊢
    cases hentry : current.summary.get? state event with
    | none =>
      rw [hentry] at hnext
      exact ih hlisted hnext h hcreated
    | some entry =>
      obtain ⟨queued, hqueued, hcount⟩ :=
        current.propagate_queues ⟨place, event, entry, true⟩ reference
      have hkind : current.Queues (knowledge.JustifiedByReplay state place reference) queued
          (current.propagate ⟨place, event, entry, true⟩ reference).1 :=
        ⟨hqueued.log_eq, hqueued.predecessors_eq, hqueued.backlog, fun point hpoint =>
          ⟨entry, ⟨before, event, events, current, queued, hevents, by rw [hbefore], hentry,
            hqueued.backlog, hpoint⟩, h.justified (hqueued.kind_of_mem point hpoint)⟩⟩
      rw [hentry] at hnext
      dsimp only at hnext ⊢
      cases hwalk : current.propagate ⟨place, event, entry, true⟩ reference with
      | mk after outcome =>
        rw [hwalk] at hnext hkind hcount
        cases outcome with
        | error error => exact ⟨queued, h.trans hkind, fun total htotal => by simp at htotal⟩
        | ok more =>
          have hmore : created + more = (points ++ queued).length := by
            rw [hcreated, hcount more rfl, List.length_append]
          obtain ⟨rest, hrest⟩ := ih hlisted hnext (h.trans hkind) hmore
          exact ⟨queued ++ rest, by rwa [← List.append_assoc]⟩

/-- Whatever is known when an event is completed or a state is met again, as many points are queued
as are answered, those queued before stay in their order, and every new one is justified: by the
accesses recorded at the place of the event, or by the entry that the walk that queued it was to
replay. -/
theorem backtrack_points_are_justified (knowledge : Knowledge) (place : TransitionRef)
    (reference : List Event) :
    (∀ later created, knowledge.eventCompleted place reference = (later, .ok created) →
      ∃ points, points.length = created ∧ knowledge.backlog.Extends points later.backlog ∧
        ∀ point ∈ points, ∃ footprint, knowledge.log.footprint? place = some footprint ∧
          knowledge.Justified place footprint reference point) ∧
    ∀ state later created,
      knowledge.stateRevisited state place reference = (later, .ok created) →
        ∃ points, points.length = created ∧ knowledge.backlog.Extends points later.backlog ∧
          ∀ point ∈ points, knowledge.JustifiedByReplay state place reference point := by
  constructor
  · intro later created hcompleted
    unfold eventCompleted at hcompleted
    cases hfootprint : knowledge.log.footprint? place with
    | none =>
      simp only [hfootprint, Prod.mk.injEq, Except.ok.injEq] at hcompleted
      obtain ⟨rfl, rfl⟩ := hcompleted
      exact ⟨[], rfl, .refl _, by simp⟩
    | some footprint =>
      simp only [hfootprint] at hcompleted
      split at hcompleted
      · simp at hcompleted
      · rename_i transition _
        obtain ⟨points, hqueues, hcount⟩ :=
          knowledge.propagate_queues ⟨place, transition.event, footprint, false⟩ reference
        rw [hcompleted] at hqueues hcount
        exact ⟨points, (hcount created rfl).symm, hqueues.backlog, fun point hpoint =>
          ⟨footprint, rfl, hqueues.kind_of_mem point hpoint⟩⟩
  · intro state later created hrevisited
    have hnone : replay state place reference [] knowledge 0 = (knowledge, .ok 0) := rfl
    have hlisted : knowledge.summary.eventsAt state = [] ++ knowledge.summary.eventsAt state := rfl
    obtain ⟨points, hqueues, hcount⟩ := replay_queues hlisted hnone (.refl knowledge _) rfl
    unfold stateRevisited at hrevisited
    rw [hrevisited] at hqueues hcount
    exact ⟨points, (hcount created rfl).symm, hqueues.backlog, hqueues.kind_of_mem⟩

/-- Event 0 and then event 1 wrote the same field, and event 0 is known to write it from state 3
on. -/
def bothWrote : Knowledge :=
  let footprint := Footprint.ofList [⟨.write, "x", ⟨1⟩⟩]
  let execution := ((Execution.start none).push ⟨⟨0⟩, ⟨1⟩, none⟩).push ⟨⟨1⟩, ⟨2⟩, none⟩
  { log := ExecutionLog.empty.add ((execution.setFootprint 0 footprint).setFootprint 1 footprint)
    summary := Summary.empty.insert ⟨3⟩ ⟨0⟩ footprint
    reached := .empty
    predecessors := Predecessors.empty.record ⟨2⟩ ⟨⟨0⟩, 0⟩
    backlog := .empty }

/-- When event 1 completes, it is to be tried before event 0; when state 3 is met again after event
1, event 0 is to be tried before that. -/
theorem backtrack_points_are_justified_bothWrote :
    ∃ completed revisited,
      bothWrote.eventCompleted ⟨⟨0⟩, 1⟩ [⟨0⟩, ⟨1⟩] = (completed, .ok 1) ∧
      bothWrote.stateRevisited ⟨3⟩ ⟨⟨0⟩, 1⟩ [⟨0⟩, ⟨1⟩] = (revisited, .ok 1) ∧
      (∃ points, points.length = 1 ∧ bothWrote.backlog.Extends points completed.backlog ∧
        ∀ point ∈ points, ∃ footprint, bothWrote.log.footprint? ⟨⟨0⟩, 1⟩ = some footprint ∧
          bothWrote.Justified ⟨⟨0⟩, 1⟩ footprint [⟨0⟩, ⟨1⟩] point) ∧
      ∃ points, points.length = 1 ∧ bothWrote.backlog.Extends points revisited.backlog ∧
        ∀ point ∈ points, bothWrote.JustifiedByReplay ⟨3⟩ ⟨⟨0⟩, 1⟩ [⟨0⟩, ⟨1⟩] point := by
  have hcompleted : (bothWrote.eventCompleted ⟨⟨0⟩, 1⟩ [⟨0⟩, ⟨1⟩]).2 = .ok 1 := by decide +kernel
  have hrevisited : (bothWrote.stateRevisited ⟨3⟩ ⟨⟨0⟩, 1⟩ [⟨0⟩, ⟨1⟩]).2 = .ok 1 := by
    decide +kernel
  obtain ⟨hevent, hstate⟩ := backtrack_points_are_justified bothWrote ⟨⟨0⟩, 1⟩ [⟨0⟩, ⟨1⟩]
  exact ⟨_, _, Prod.ext rfl hcompleted, Prod.ext rfl hrevisited,
    hevent _ 1 (Prod.ext rfl hcompleted), hstate ⟨3⟩ _ 1 (Prod.ext rfl hrevisited)⟩

end Knowledge

end EventOrder
