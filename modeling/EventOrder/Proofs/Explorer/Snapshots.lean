import EventOrder.Proofs.Explorer.Calls

/-!
# Snapshots in a call

An explorer keeps snapshots that it was shown and asks its host to return to kept ones only. This
holds of every call on every explorer, whatever becomes of the call.
-/

namespace EventOrder.Explorer

variable {σ φ : Type}

/-- What a reply does with snapshots. -/
structure Restores (explorer : Explorer σ φ) (view : HostView σ) (reply : Reply σ φ) : Prop where
  /-- A snapshot that is kept was kept before or is the one shown, of the state shown. -/
  kept : ∀ (state : StateId) (snapshot : σ),
    reply.explorer.snapshots[state]? = some snapshot →
    explorer.snapshots[state]? = some snapshot ∨ state = view.state ∧ snapshot = view.snapshot
  /-- The host is asked to return to a snapshot that is kept. -/
  requested : ∀ snapshot, .restore snapshot ∈ reply.requests →
    ∃ state : StateId, reply.explorer.snapshots[state]? = some snapshot

variable {explorer later : Explorer σ φ} {view : HostView σ} {point : DecisionPoint}
  {reply : Reply σ φ}

/-- A reply that leaves the snapshots as they are and asks for none. -/
theorem restores_of_snapshots_eq (hsame : reply.explorer.snapshots = explorer.snapshots)
    (hnone : ∀ snapshot, .restore snapshot ∉ reply.requests) : explorer.Restores view reply where
  kept _ _ hsnapshot := .inl (hsame ▸ hsnapshot)
  requested snapshot hrestore := absurd hrestore (hnone snapshot)

/-- A reply may be that of an explorer that has kept the snapshot shown before. -/
theorem Restores.of_kept (h : later.Restores view reply)
    (hkept : ∀ (state : StateId) (snapshot : σ), later.snapshots[state]? = some snapshot →
      explorer.snapshots[state]? = some snapshot ∨ state = view.state ∧ snapshot = view.snapshot) :
    explorer.Restores view reply where
  kept state snapshot hsnapshot := by
    rcases h.kept state snapshot hsnapshot with hbefore | hshown
    · exact hkept state snapshot hbefore
    · exact .inr hshown
  requested := h.requested

/-- Counting the decision changes no snapshot. -/
theorem Restores.count (h : explorer.Restores view reply)
    (hsame : later.snapshots = reply.explorer.snapshots) :
    explorer.Restores view { reply with explorer := later } where
  kept state snapshot hsnapshot := h.kept state snapshot (hsame ▸ hsnapshot)
  requested snapshot hrestore := by
    obtain ⟨state, hstate⟩ := h.requested snapshot hrestore
    exact ⟨state, hsame ▸ hstate⟩

/-- Moving on returns the host to the snapshot of the backtrack point's state, if to any. -/
theorem restores_moveOn (explorer : Explorer σ φ) (view : HostView σ) (point : DecisionPoint) :
    explorer.Restores view (explorer.moveOn view point) := by
  have hcloses (knowing : Explorer σ φ) (snapshot : σ) :
      .restore snapshot ∉ knowing.closeCurrent := by
    simp [closeCurrent]
  unfold moveOn
  split
  · exact restores_of_snapshots_eq rfl fun _ => List.not_mem_nil
  · rename_i next backlog hpop
    unfold returnTo
    dsimp only
    by_cases hhere : view.state = next.state
    · rw [if_pos hhere]
      refine restores_of_snapshots_eq rfl fun snapshot hrestore => ?_
      simp [hcloses] at hrestore
    · rw [if_neg hhere]
      cases hsnapshot : explorer.snapshots[next.state]? with
      | none => exact restores_of_snapshots_eq rfl (hcloses _)
      | some kept =>
        refine ⟨fun state snapshot => .inl, fun snapshot hrestore => ⟨next.state, ?_⟩⟩
        simp only [List.mem_append, List.mem_singleton, hcloses, false_or, reduceCtorEq, or_false,
          HostRequest.restore.injEq] at hrestore
        exact hrestore ▸ hsnapshot

/-- So does the conclusion of a decision. -/
theorem restores_conclude (explorer : Explorer σ φ) (ends : Bool) (view : HostView σ)
    (point : DecisionPoint) (event : Event) :
    explorer.Restores view (explorer.conclude ends view point event) := by
  have hreply : explorer.Restores view
      (if ends then explorer.moveOn view point
        else
          ⟨{ explorer with statistics := explorer.statistics.record ⟨view.state, event⟩ }, point,
            [], .ok .proceed⟩) := by
    cases ends with
    | true => exact explorer.restores_moveOn view point
    | false => exact restores_of_snapshots_eq rfl fun _ => List.not_mem_nil
  unfold conclude
  dsimp only
  split
  · exact hreply
  · exact hreply.count rfl

/-- Recording a decision keeps no snapshot. -/
theorem snapshots_recordDecision (explorer : Explorer σ φ) (transition : Transition) :
    (explorer.recordDecision transition).1.snapshots = explorer.snapshots := by
  unfold recordDecision
  dsimp only
  split
  · rfl
  · split
    · split <;> rfl
    · split <;> rfl

/-- Learning from the event before keeps none. -/
theorem snapshots_completePrevious (explorer : Explorer σ φ) :
    explorer.completePrevious.1.snapshots = explorer.snapshots := by
  obtain ⟨knowledge, hlearnt, -⟩ :=
    explorer.completePrevious_keeps (motive := fun _ => True) trivial fun _ _ => trivial
  rw [hlearnt]

/-- Nor does learning from the states just entered. -/
theorem snapshots_hasNothingNew (explorer : Explorer σ φ) :
    explorer.hasNothingNew.1.snapshots = explorer.snapshots := by
  obtain ⟨knowledge, hlearnt, -⟩ :=
    explorer.hasNothingNew_keeps (motive := fun _ => True) trivial fun _ _ _ _ _ _ => trivial
  rw [hlearnt]

/-- What is kept then is the snapshot shown. -/
theorem kept_keepSnapshot (explorer : Explorer σ φ) (view : HostView σ) :
    (∀ (state : StateId) (snapshot : σ),
        (explorer.keepSnapshot view).1.snapshots[state]? = some snapshot →
          explorer.snapshots[state]? = some snapshot ∨
            state = view.state ∧ snapshot = view.snapshot) ∧
      ∀ snapshot, .restore snapshot ∉ (explorer.keepSnapshot view).2 := by
  unfold keepSnapshot
  split
  · exact ⟨fun _ _ => .inl, fun _ => List.not_mem_nil⟩
  · refine ⟨fun state snapshot hsnapshot => ?_, fun snapshot hrestore => ?_⟩
    · rw [Std.ExtTreeMap.getElem?_insert] at hsnapshot
      split at hsnapshot
      · rename_i hstate
        exact .inr ⟨(Std.LawfulEqOrd.eq_of_compare hstate).symm,
          (Option.some.inj hsnapshot).symm⟩
      · exact .inl hsnapshot
    · simp at hrestore

/-- A decision keeps the snapshot shown at most, and then it is concluded. -/
theorem restores_decide (explorer : Explorer σ φ) (view : HostView σ) (point : DecisionPoint)
    (event : Event) : explorer.Restores view (explorer.decide view point event) := by
  have hrecorded := explorer.snapshots_recordDecision ⟨event, view.state, some point.id⟩
  unfold decide
  split
  · rename_i recorded error heq
    rw [heq] at hrecorded
    exact restores_of_snapshots_eq hrecorded fun _ => List.not_mem_nil
  · rename_i recorded place heq
    rw [heq] at hrecorded
    have hnoted : (recorded.notePlace point.id place).snapshots = explorer.snapshots := hrecorded
    obtain ⟨hkept, hnone⟩ := (recorded.notePlace point.id place).kept_keepSnapshot view
    rw [hnoted] at hkept
    dsimp only
    generalize (recorded.notePlace point.id place).keepSnapshot view = shown at hkept hnone
    obtain ⟨keeping, requests⟩ := shown
    have hfailed {learnt : Explorer σ φ} (hsame : learnt.snapshots = keeping.snapshots)
        (outcome : Except ExplorationError Flow) :
        explorer.Restores view ⟨learnt, point, requests, outcome⟩ :=
      ⟨fun state snapshot hsnapshot => hkept state snapshot (hsame ▸ hsnapshot),
        fun snapshot hrestore => absurd hrestore (hnone snapshot)⟩
    have hcompleted := keeping.snapshots_completePrevious
    dsimp only
    split
    · rename_i completed error heq
      rw [heq] at hcompleted
      exact hfailed hcompleted _
    · rename_i completed created heq
      rw [heq] at hcompleted
      have hweighed := completed.snapshots_hasNothingNew
      split
      · rename_i weighed error heq
        rw [heq] at hweighed
        exact hfailed (hweighed.trans hcompleted) _
      · rename_i weighed ends heq
        rw [heq] at hweighed
        have hconcludes := weighed.restores_conclude (ends || weighed.atMaxDepth) view point event
        have hsame : weighed.snapshots = keeping.snapshots := hweighed.trans hcompleted
        refine ⟨(hconcludes.of_kept fun state snapshot hsnapshot =>
          hkept state snapshot (hsame ▸ hsnapshot)).kept, fun snapshot hrestore => ?_⟩
        rcases List.mem_append.mp hrestore with hcapture | hthen
        · exact absurd hcapture (hnone snapshot)
        · exact hconcludes.requested snapshot hthen

/-- The answer to an advanced decision point restores kept snapshots only. -/
theorem restores_choiceAdvanced (explorer : Explorer σ φ) (view : HostView σ)
    (point : DecisionPoint) : explorer.Restores view (explorer.choiceAdvanced view point) := by
  have hadopted := explorer.adoptPending_keeps.2.2.1
  cases hreducing : explorer.reducing with
  | false =>
    rw [choiceAdvanced_of_not_reducing hreducing]
    exact restores_of_snapshots_eq rfl fun _ => List.not_mem_nil
  | true =>
    cases hdue : explorer.adoptPending.schedule.eventAt? explorer.adoptPending.counter with
    | none =>
      rw [choiceAdvanced_of_not_due hreducing hdue]
      exact restores_of_snapshots_eq hadopted fun _ => List.not_mem_nil
    | some event =>
      rw [choiceAdvanced_of_due hreducing hdue]
      refine (explorer.adoptPending.restores_decide view _ event).of_kept fun state snapshot => ?_
      rw [hadopted]
      exact .inl

/-- The answer to a path that has ended restores kept snapshots only. -/
theorem restores_pathMatched (explorer : Explorer σ φ) (view : HostView σ)
    (point : DecisionPoint) : explorer.Restores view (explorer.pathMatched view point) := by
  have hmoves (knowledge : Knowledge) :
      explorer.Restores view (({ explorer with knowledge } : Explorer σ φ).moveOn view point) :=
    (restores_moveOn _ view point).of_kept fun _ _ => .inl
  have hsteps := explorer.pathMatched_steps view point
  generalize explorer.pathMatched view point = reply at hsteps
  cases hsteps with
  | counted => exact restores_of_snapshots_eq rfl fun _ => List.not_mem_nil
  | failed => exact restores_of_snapshots_eq rfl fun _ => List.not_mem_nil
  | stuck knowledge => exact hmoves knowledge
  | moved knowledge => exact (hmoves knowledge).count rfl

/-- Opening a decision point keeps no snapshot. -/
theorem snapshots_pointRegistered (explorer : Explorer σ φ) (point : DecisionPoint) :
    (explorer.pointRegistered point).1.snapshots = explorer.snapshots := by
  obtain ⟨reducing, offersSeen, schedule, lastEvent, events, hregistered⟩ :=
    explorer.pointRegistered_same point
  rw [hregistered]

/-- Entering a state keeps none. -/
theorem snapshots_stateEntered (explorer : Explorer σ φ) (state : StateId) :
    (explorer.stateEntered state).snapshots = explorer.snapshots := by
  obtain ⟨predecessors, visits, hentered⟩ := explorer.stateEntered_same state
  rw [hentered]

/-- Nor does observing accesses. -/
theorem snapshots_foldl_accessObserved [AccessFilter φ] (explorer : Explorer σ φ)
    (observations : List Observation) :
    (observations.foldl
      (fun explorer observation => explorer.accessObserved observation.active observation.access)
      explorer).snapshots = explorer.snapshots := by
  induction observations generalizing explorer with
  | nil => rfl
  | cons observation observations ih =>
    rw [List.foldl_cons, ih]
    obtain ⟨filter, hsame | ⟨-, -, position, recorded, hrecorded⟩⟩ :=
      explorer.accessObserved_cases observation.active observation.access
    · rw [hsame]
    · rw [hrecorded]
      rfl

end EventOrder.Explorer
