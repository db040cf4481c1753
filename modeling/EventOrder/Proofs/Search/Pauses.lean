import EventOrder.Proofs.Search.Paths

/-!
# Pauses of a search

While the body of an event runs, the machine's values change and its state stays as it was. At all
other moments the machine has settled. This file lists these moments for a whole run, reduced or
exhaustive, with the values that the machine has settled in up to then. From one to the next the
machine settles at most once, in values that it has settled in before, in those of a snapshot or in
those that an event leads to, and the explorer keeps at most a snapshot of the machine as it is.
-/

namespace EventOrder

/-- A search at a moment at which no event runs, and the values that the machine has settled in so
far, last first. -/
structure Pause where
  /-- The search. -/
  search : Search
  /-- The values settled in. -/
  settled : List Values

namespace Pause

/-- The search has gone on, and the machine stays where it was. -/
def stay (pause : Pause) (search : Search) : Pause := ⟨search, pause.settled⟩

/-- The search has gone on, and the machine has settled. -/
def settle (pause : Pause) (search : Search) : Pause :=
  ⟨search, search.machine.values :: pause.settled⟩

/-- The explorer has answered, and the machine has done nothing yet of what it is asked for. -/
def hear (pause : Pause) (reply : Reply Values PatternFilter) : Pause :=
  pause.stay { pause.search with explorer := reply.explorer }

/-- The machine has done what one request asks for. -/
def obey (pause : Pause) (request : HostRequest Values) : Pause :=
  let obeyed := { pause.search with machine := pause.search.machine.obey request }
  match request with
  | .restore _ => pause.settle obeyed
  | .captured | .close _ | .offer _ => pause.stay obeyed

/-- The pauses after each of the requests. -/
def obeyEach (pause : Pause) : List (HostRequest Values) → List Pause
  | [] => []
  | request :: requests => pause.obey request :: (pause.obey request).obeyEach requests

/-- The machine has done all that the explorer asks for. -/
def accept (pause : Pause) (reply : Reply Values PatternFilter) : Pause :=
  reply.requests.foldl obey (pause.hear reply)

/-- The body of an event was run, and the machine has settled in what it led to. -/
def ran (pause : Pause) (point : PointId) (event : Event) : Pause :=
  pause.settle
    { pause.search with
      machine := pause.search.machine.moveTo
        (pause.search.code.next event pause.search.machine.values)
      explorer := (pause.search.observations point event).foldl
        (fun explorer observation => explorer.accessObserved observation.active observation.access)
        pause.search.explorer
      executed := pause.search.executed + 1 }

/-- Then the explorer was told of the state. -/
def entered (pause : Pause) (point : PointId) (event : Event) : Pause :=
  (pause.ran point event).stay (pause.search.execute point event)

end Pause

namespace Search

/-- The pauses of a turn of a reduced search: the explorer answers to the decision that is due, the
machine does what it is asked for, and then the search starts over or an event is executed and the
next decision point opened. -/
def decisionPauses (pause : Pause) (point : DecisionPoint) : List Pause :=
  if pause.search.machine.closed.contains point.id || !point.hasMore then []
  else if pause.search.atLimit then []
  else
    let reply := pause.search.consult point
    let accepted := pause.accept reply
    pause.hear reply :: (pause.hear reply).obeyEach reply.requests ++
      match reply.outcome with
      | .error _ | .ok .finished => []
      | .ok .restarted =>
        [accepted.stay
          { accepted.search with machine := accepted.search.machine.openInstalled.1 }]
      | .ok .proceed =>
        match reply.point.current with
        | none => []
        | some event =>
          let entered := accepted.entered reply.point.id event
          [accepted.ran reply.point.id event, entered, entered.stay entered.search.registerPoint.1]

/-- The pauses of starting to expand the next state on a stack: the machine is taken there, and a
decision point is opened. -/
def nextPauses (pause : Pause) : List Values → List Pause
  | [] => []
  | values :: _ =>
    let moved := pause.settle (pause.search.moveTo values)
    [moved, moved.stay moved.search.openPoint.1]

/-- The pauses of executing an event in the state under expansion: the machine is taken there, the
explorer is told of the event, and the event is executed. -/
def branchPauses (pause : Pause) (frontier : Frontier) (event : Event) : List Pause :=
  let moved := pause.settle (pause.search.moveTo frontier.values)
  let reply := moved.search.explorer.choiceAdvanced moved.search.machine.view
    (frontier.point.force event)
  let accepted := moved.accept reply
  moved :: moved.hear reply :: (moved.hear reply).obeyEach reply.requests ++
    match reply.outcome with
    | .error _ => []
    | .ok _ => [accepted.ran frontier.point.id event, accepted.entered frontier.point.id event]

/-- The pauses of a turn of an exhaustive search. -/
def expansionPauses (pause : Pause) (frontier : Frontier) : List Pause :=
  match frontier.events with
  | [] => nextPauses pause frontier.pending
  | event :: _ => if pause.search.atLimit then [] else branchPauses pause frontier event

/-- The pauses of so many turns. -/
def turnPauses {κ : Type} (turn : Search → κ → Turn κ) (pauses : Pause → κ → List Pause) :
    Nat → Pause → κ → List Pause
  | 0, _, _ => []
  | turns + 1, pause, next =>
    pauses pause next ++
      match turn pause.search next with
      | .fired _ _ rest | .moved _ rest =>
        turnPauses turn pauses turns ((pauses pause next).getLastD pause) rest
      | .ended _ _ => []

/-- The pauses of a whole search: at the start, once the first decision point is registered, and in
every turn from there. -/
def pauses (search : Search) : List Pause :=
  let first : Pause := ⟨search, [search.machine.values]⟩
  let (registered, point) := search.registerPoint
  let opened := first.stay registered
  let values := registered.machine.values
  first :: opened ::
    if registered.explorer.reducing then
      turnPauses decide decisionPauses registered.decisionBound opened point
    else
      turnPauses expand expansionPauses registered.expansionBound opened
        ⟨point, values, [], [values]⟩

end Search

namespace Pause

variable {pause later last : Pause} {pauses more : List Pause}

/-- The values that the machine can settle in from a pause. -/
inductive Leads (pause : Pause) : Values → Prop
  /-- It has settled in them before. -/
  | again {values : Values} (hvalues : values ∈ pause.settled) : Leads pause values
  /-- They are those of a snapshot that the explorer keeps. -/
  | kept {state : StateId} {values : Values}
      (hkept : pause.search.explorer.snapshots[state]? = some values) : Leads pause values
  /-- An event leads to them. -/
  | event (event : Event) :
      Leads pause (pause.search.code.next event pause.search.machine.values)

/-- What can change from one pause to the next. -/
inductive Follows (pause : Pause) : Pause → Prop
  /-- The machine stays where it was, and at most a snapshot of it is kept. -/
  | stays {later : Search} (hcode : later.code = pause.search.code)
      (hmachine : ∃ closed installed nextPoint,
        later.machine = { pause.search.machine with closed, installed, nextPoint })
      (hsnapshots : ∀ (state : StateId) (values : Values),
        later.explorer.snapshots[state]? = some values →
          pause.search.explorer.snapshots[state]? = some values ∨
            state = pause.search.machine.state ∧ values = pause.search.machine.values) :
      Follows pause (pause.stay later)
  /-- The machine settles. -/
  | settles {later : Search} {values : Values} (hvalues : pause.Leads values)
      (hcode : later.code = pause.search.code)
      (hmachine : later.machine = pause.search.machine.moveTo values)
      (hsnapshots : later.explorer.snapshots = pause.search.explorer.snapshots) :
      Follows pause (pause.settle later)

/-- Pauses that follow one another from one to another. -/
inductive Course : Pause → List Pause → Pause → Prop
  /-- There is no pause in between. -/
  | here {pause : Pause} : Course pause [] pause
  /-- The next pause follows. -/
  | step {pause later last : Pause} {pauses : List Pause} (hfollows : pause.Follows later)
      (hrest : Course later pauses last) : Course pause (later :: pauses) last

/-- One pause may follow on its own. -/
theorem Follows.course (h : pause.Follows later) : Course pause [later] later := .step h .here

/-- Courses follow one another. -/
theorem Course.append (h : Course pause pauses later) (hmore : Course later more last) :
    Course pause (pauses ++ more) last := by
  induction h with
  | here => exact hmore
  | step hfollows _ ih => exact .step hfollows (ih hmore)

/-- A course ends with its last pause. -/
theorem Course.getLastD_eq (h : Course pause pauses last) : pauses.getLastD pause = last := by
  induction h with
  | here => rfl
  | step _ _ ih => rw [List.getLastD_cons, ih]

/-- The values settled in stay settled in. -/
theorem Course.mem_settled (h : Course pause pauses last) {values : Values}
    (hvalues : values ∈ pause.settled) : values ∈ last.settled := by
  induction h with
  | here => exact hvalues
  | step hfollows _ ih =>
    apply ih
    cases hfollows with
    | stays => exact hvalues
    | settles => exact List.mem_cons_of_mem _ hvalues

/-- The machine stays where it was when only the explorer goes on, and no snapshot is kept. -/
private theorem follows_stay {search : Search} (hcode : search.code = pause.search.code)
    (hmachine : ∃ closed installed nextPoint,
      search.machine = { pause.search.machine with closed, installed, nextPoint })
    (hsnapshots : search.explorer.snapshots = pause.search.explorer.snapshots) :
    pause.Follows (pause.stay search) :=
  .stays hcode hmachine fun _ _ hkept => .inl (hsnapshots ▸ hkept)

/-- An answer that restores kept snapshots only is followed by what it asks for. -/
theorem course_accept {reply : Reply Values PatternFilter}
    (hreply : pause.search.explorer.Restores pause.search.machine.view reply) :
    Course pause (pause.hear reply :: (pause.hear reply).obeyEach reply.requests)
      (pause.accept reply) := by
  have hobeys (requests : List (HostRequest Values))
      (hrequests : ∀ request ∈ requests, request ∈ reply.requests) (hearing : Pause)
      (hexplorer : hearing.search.explorer = reply.explorer) :
      Course hearing (hearing.obeyEach requests) (requests.foldl obey hearing) := by
    induction requests generalizing hearing with
    | nil => exact .here
    | cons request requests ih =>
      have hrest := ih (fun other hother => hrequests other (List.mem_cons_of_mem _ hother))
        (hearing.obey request)
      have hrequest := hrequests request List.mem_cons_self
      cases request with
      | captured => exact .step (follows_stay rfl ⟨_, _, _, rfl⟩ rfl) (hrest hexplorer)
      | close point => exact .step (follows_stay rfl ⟨_, _, _, rfl⟩ rfl) (hrest hexplorer)
      | offer schedule => exact .step (follows_stay rfl ⟨_, _, _, rfl⟩ rfl) (hrest hexplorer)
      | restore values =>
        obtain ⟨state, hkept⟩ := hreply.requested values hrequest
        exact .step (.settles (.kept (hexplorer ▸ hkept)) rfl rfl rfl) (hrest hexplorer)
  exact .step (.stays rfl ⟨_, _, _, rfl⟩ hreply.kept) (hobeys reply.requests (fun _ => id) _ rfl)

/-- The search takes on the answer. -/
@[simp]
theorem search_accept (pause : Pause) (reply : Reply Values PatternFilter) :
    (pause.accept reply).search = pause.search.accept reply := by
  have hobeys (requests : List (HostRequest Values)) (hearing : Pause) :
      (requests.foldl obey hearing).search =
        { hearing.search with machine := requests.foldl Machine.obey hearing.search.machine } := by
    induction requests generalizing hearing with
    | nil => rfl
    | cons request requests ih =>
      rw [List.foldl_cons, List.foldl_cons, ih]
      cases request <;> rfl
  exact hobeys reply.requests (pause.hear reply)

/-- Executing an event settles the machine where the event leads to. -/
theorem course_execute (pause : Pause) (point : PointId) (event : Event) :
    Course pause [pause.ran point event, pause.entered point event]
      (pause.entered point event) := by
  have hobserved := pause.search.explorer.snapshots_foldl_accessObserved
    (pause.search.observations point event)
  refine .step (.settles (.event event) rfl rfl hobserved) (Follows.course ?_)
  exact follows_stay rfl ⟨_, _, _, rfl⟩ (Explorer.snapshots_stateEntered _ _)

/-- Registering a decision point leaves the machine where it is. -/
theorem follows_registerPoint (pause : Pause) :
    pause.Follows (pause.stay pause.search.registerPoint.1) :=
  follows_stay rfl ⟨_, _, _, rfl⟩
    (pause.search.explorer.snapshots_pointRegistered pause.search.openPoint.2)

end Pause

/-- The search that a turn leads to. -/
def Turn.search {κ : Type} : Turn κ → Search
  | .fired _ search _ | .moved search _ | .ended search _ => search

namespace Search

open Pause

variable {κ : Type}

/-- The pauses of a decision lead to what the turn leads to. -/
theorem course_decisionPauses (pause : Pause) (point : DecisionPoint) :
    ∃ last, Course pause (decisionPauses pause point) last ∧
      last.search = (pause.search.decide point).search := by
  unfold decisionPauses decide
  split
  · exact ⟨pause, .here, rfl⟩
  · split
    · exact ⟨pause, .here, rfl⟩
    · have haccept := course_accept (pause.search.restores_consult point)
      have hsearch := pause.search_accept (pause.search.consult point)
      generalize pause.search.consult point = reply at haccept hsearch ⊢
      dsimp only
      cases houtcome : reply.outcome with
      | error error => exact ⟨_, haccept.append .here, hsearch⟩
      | ok flow =>
        cases flow with
        | finished => exact ⟨_, haccept.append .here, hsearch⟩
        | restarted =>
          refine ⟨_, haccept.append (Follows.course ?_), ?_⟩
          · exact .stays rfl ⟨_, _, _, rfl⟩ fun _ _ => .inl
          · rw [hsearch]
            rfl
        | proceed =>
          cases hcurrent : reply.point.current with
          | none =>
            refine ⟨_, haccept.append .here, ?_⟩
            simp only [fire, hcurrent]
            exact hsearch
          | some event =>
            refine ⟨_, haccept.append (((pause.accept reply).course_execute reply.point.id
              event).append (follows_registerPoint _).course), ?_⟩
            simp only [fire, hcurrent, ← hsearch]
            rfl

/-- The machine has settled in the values that an exhaustive search comes back to. -/
def Holds (pause : Pause) (frontier : Frontier) : Prop :=
  frontier.values ∈ pause.settled ∧ ∀ values ∈ frontier.pending, values ∈ pause.settled

variable {pause : Pause} {frontier : Frontier}

/-- Starting to expand a state leads the machine there. -/
private theorem course_nextPauses {pending : List Values}
    (hpending : ∀ values ∈ pending, values ∈ pause.settled) :
    ∃ last, Course pause (nextPauses pause pending) last ∧
      last.search = (pause.search.expandNext pending).search ∧
        (pause.search.expandNext pending).Leaves fun _ rest => Holds last rest := by
  cases pending with
  | nil => exact ⟨pause, .here, rfl, trivial⟩
  | cons values pending =>
    have hmoved : pause.Follows (pause.settle (pause.search.moveTo values)) :=
      .settles (.again (hpending values List.mem_cons_self)) rfl rfl rfl
    have hopened : (pause.settle (pause.search.moveTo values)).Follows
        ((pause.settle (pause.search.moveTo values)).stay
          (pause.search.moveTo values).openPoint.1) :=
      .stays rfl ⟨_, _, _, rfl⟩ fun _ _ => .inl
    have hcourse := hmoved.course.append hopened.course
    exact ⟨_, hcourse, rfl, hcourse.mem_settled (hpending values List.mem_cons_self),
      fun others hothers => hcourse.mem_settled (hpending others (List.mem_cons_of_mem _ hothers))⟩

/-- Executing an event in the state under expansion leads the machine there and on. -/
private theorem course_branchPauses (h : Holds pause frontier) (event : Event)
    (events : List Event) :
    ∃ last, Course pause (branchPauses pause frontier event) last ∧
      last.search = (pause.search.branch frontier event events).search ∧
        (pause.search.branch frontier event events).Leaves fun _ rest => Holds last rest := by
  obtain ⟨hvalues, hpending⟩ := h
  have hmoved : pause.Follows (pause.settle (pause.search.moveTo frontier.values)) :=
    .settles (.again hvalues) rfl rfl rfl
  unfold branchPauses branch
  dsimp only
  generalize pause.search.moveTo frontier.values = search at hmoved ⊢
  have haccept : Course (pause.settle search) _ _ := course_accept
    (search.explorer.restores_choiceAdvanced search.machine.view (frontier.point.force event))
  have hsearch := (pause.settle search).search_accept
    (search.explorer.choiceAdvanced search.machine.view (frontier.point.force event))
  change _ = search.accept _ at hsearch
  simp only [show (pause.settle search).search = search from rfl]
  generalize search.explorer.choiceAdvanced search.machine.view (frontier.point.force event) =
    reply at haccept hsearch ⊢
  cases houtcome : reply.outcome with
  | error error => exact ⟨_, hmoved.course.append (haccept.append .here), hsearch, trivial⟩
  | ok flow =>
    have hcourse := hmoved.course.append (haccept.append
      (((pause.settle search).accept reply).course_execute frontier.point.id event))
    have hexecuted : (((pause.settle search).accept reply).entered frontier.point.id
        event).search = (search.accept reply).execute frontier.point.id event := by
      rw [← hsearch]
      rfl
    refine ⟨_, hcourse, hexecuted, hcourse.mem_settled hvalues, fun values hfound => ?_⟩
    rcases List.mem_append.mp hfound with hnew | hold
    · split at hnew
      · rw [List.mem_singleton.mp hnew, ← hexecuted]
        exact List.mem_cons_self
      · exact absurd hnew List.not_mem_nil
    · exact hcourse.mem_settled (hpending values hold)

/-- The pauses of a turn of an exhaustive search lead to what the turn leads to, and whatever values
are to be come back to the machine has settled in. -/
theorem course_expansionPauses (h : Holds pause frontier) :
    ∃ last, Course pause (expansionPauses pause frontier) last ∧
      last.search = (pause.search.expand frontier).search ∧
        (pause.search.expand frontier).Leaves fun _ rest => Holds last rest := by
  unfold expansionPauses expand
  cases hevents : frontier.events with
  | nil => exact course_nextPauses h.2
  | cons event events =>
    cases hlimit : pause.search.atLimit with
    | true => exact ⟨pause, .here, rfl, trivial⟩
    | false => exact course_branchPauses h event events

/-- The pauses of turns lead to what the turns lead to. -/
theorem course_turnPauses {turn : Search → κ → Turn κ} {pauses : Pause → κ → List Pause}
    {motive : Pause → κ → Prop}
    (hturn : ∀ pause next, motive pause next → ∃ last, Course pause (pauses pause next) last ∧
      last.search = (turn pause.search next).search ∧
        (turn pause.search next).Leaves fun _ rest => motive last rest)
    (turns : Nat) (pause : Pause) (next : κ) (h : motive pause next) :
    ∃ last, Course pause (turnPauses turn pauses turns pause next) last ∧
      last.search = (pause.search.takeTurns turn turns next).1 := by
  induction turns generalizing pause next with
  | zero => exact ⟨pause, .here, rfl⟩
  | succ turns ih =>
    obtain ⟨between, hcourse, hsearch, hleaves⟩ := hturn pause next h
    rw [turnPauses, takeTurns, hcourse.getLastD_eq]
    cases hthis : turn pause.search next with
    | ended search outcome =>
      rw [hthis] at hsearch
      exact ⟨between, hcourse.append .here, hsearch⟩
    | fired firing search rest =>
      rw [hthis] at hsearch hleaves
      obtain ⟨last, hthen, hlast⟩ := ih between rest hleaves
      exact ⟨last, hcourse.append hthen, hlast.trans (by rw [hsearch]; rfl)⟩
    | moved search rest =>
      rw [hthis] at hsearch hleaves
      obtain ⟨last, hthen, hlast⟩ := ih between rest hleaves
      exact ⟨last, hcourse.append hthen, hlast.trans (by rw [hsearch]; rfl)⟩

/-- The pauses of a search lead from its start to its end. -/
theorem course_pauses (search : Search) :
    ∃ rest last, search.pauses = ⟨search, [search.machine.values]⟩ :: rest ∧
      Course ⟨search, [search.machine.values]⟩ rest last ∧ last.search = search.explore.1 := by
  let first : Pause := ⟨search, [search.machine.values]⟩
  have hopened : Course first [first.stay search.registerPoint.1]
      (first.stay search.registerPoint.1) :=
    first.follows_registerPoint.course
  unfold Search.pauses explore
  dsimp only
  split
  · obtain ⟨last, hcourse, hlast⟩ := course_turnPauses (motive := fun _ _ => True)
      (fun pause point _ => by
        obtain ⟨last, hcourse, hlast⟩ := course_decisionPauses pause point
        refine ⟨last, hcourse, hlast, ?_⟩
        cases pause.search.decide point <;> trivial)
      search.registerPoint.1.decisionBound (first.stay search.registerPoint.1)
      search.registerPoint.2 trivial
    exact ⟨_, last, rfl, hopened.append hcourse, hlast⟩
  · -- An exhaustive search comes back to values of its frontier, which it has settled in.
    have hvalues : search.registerPoint.1.machine.values ∈
        (first.stay search.registerPoint.1).settled :=
      List.mem_cons_self
    obtain ⟨last, hcourse, hlast⟩ := course_turnPauses
      (fun _ _ => course_expansionPauses) search.registerPoint.1.expansionBound
      (first.stay search.registerPoint.1)
      ⟨search.registerPoint.2, search.registerPoint.1.machine.values, [],
        [search.registerPoint.1.machine.values]⟩
      ⟨hvalues, fun values hmem => List.mem_singleton.mp hmem ▸ hvalues⟩
    exact ⟨_, last, rfl, hopened.append hcourse, hlast⟩

end Search

end EventOrder
