import EventOrder.Proofs.Race.Absorption

/-!
# What a summary accumulates

A footprint has one owner for each kind of access and field. So a summary that absorbs one footprint
after another never forgets that a field was read or written: it forgets an owner, once a later
footprint names the same field of another object. What an entry holds in the end is therefore
decided by the last footprint that names the field.
-/

namespace EventOrder

/-- One footprint, with the state and the event it is absorbed for. -/
structure Contribution where
  /-- The state before the event. -/
  state : StateId
  /-- The event. -/
  event : Event
  /-- The accesses. -/
  footprint : Footprint
deriving DecidableEq

/-- The owner that the last footprint to name a field has for it. -/
def lastOwner? (kind : AccessKind) (field : String) : List Footprint → Option ObjectId
  | [] => none
  | footprint :: later => (lastOwner? kind field later).or (footprint.entries kind)[field]?

/-- The last owner is one that some footprint has. -/
theorem exists_mem_of_lastOwner?_eq_some {kind : AccessKind} {field : String}
    {footprints : List Footprint} {owner : ObjectId}
    (h : lastOwner? kind field footprints = some owner) :
    ∃ footprint ∈ footprints, (⟨kind, field, owner⟩ : Access) ∈ footprint := by
  induction footprints with
  | nil => simp [lastOwner?] at h
  | cons footprint footprints ih =>
    rw [lastOwner?, Option.or_eq_some_iff] at h
    rcases h with hlater | ⟨-, hfirst⟩
    · obtain ⟨later, hmem, haccess⟩ := ih hlater
      exact ⟨later, List.mem_cons_of_mem _ hmem, haccess⟩
    · exact ⟨footprint, List.mem_cons_self, Footprint.mem_iff.mpr hfirst⟩

namespace Summary

variable {state : StateId} {event : Event}

/-- The summary once the footprints have been absorbed, one after the other. -/
def absorbAll (summary : Summary) (contributions : List Contribution) : Summary :=
  contributions.foldl
    (fun summary given => (summary.absorb given.state given.event given.footprint).2) summary

/-- The footprints among the contributions that are for one event at one state. -/
def contributed (contributions : List Contribution) (state : StateId) (event : Event) :
    List Footprint :=
  (contributions.filter fun given => given.state = state ∧ given.event = event).map (·.footprint)

/-- What an entry has for a field after one contribution: the owner just absorbed, if it is for this
entry and names the field, else the owner from before. -/
theorem getElem?_footprintAt_absorb (summary : Summary) (given : Contribution) (state : StateId)
    (event : Event) (kind : AccessKind) (field : String) :
    (((summary.absorb given.state given.event given.footprint).2.footprintAt state event).entries
        kind)[field]? =
      (lastOwner? kind field (contributed [given] state event)).or
        ((summary.footprintAt state event).entries kind)[field]? := by
  by_cases hsame : given.state = state ∧ given.event = event
  · obtain ⟨rfl, rfl⟩ := hsame
    have hcontributed : contributed [given] given.state given.event = [given.footprint] := by
      simp [contributed]
    rw [hcontributed, footprintAt, get?_absorb]
    split
    · simp [Footprint.getElem?_entries_merge, lastOwner?]
    · -- Nothing is stored for an empty footprint, and it names no field.
      rename_i hempty
      simp only [and_true, Bool.not_eq_false] at hempty
      have hnone : (given.footprint.entries kind)[field]? = none := by
        rw [Option.eq_none_iff_forall_not_mem]
        intro owner howner
        exact Footprint.isEmpty_iff.mp hempty ⟨kind, field, owner⟩ (Footprint.mem_iff.mpr howner)
      simp [hnone, lastOwner?, footprintAt]
  · have hcontributed : contributed [given] state event = [] := by simp [contributed, hsame]
    rw [hcontributed, footprintAt, get?_absorb, if_neg fun h => hsame h.2]
    simp [lastOwner?, footprintAt]

/-- What an entry has for a field after any contributions: the owner from the last footprint for
this entry that names the field, else the owner from before them. -/
theorem getElem?_footprintAt_absorbAll (summary : Summary) (contributions : List Contribution)
    (state : StateId) (event : Event) (kind : AccessKind) (field : String) :
    (((summary.absorbAll contributions).footprintAt state event).entries kind)[field]? =
      (lastOwner? kind field (contributed contributions state event)).or
        ((summary.footprintAt state event).entries kind)[field]? := by
  induction contributions generalizing summary with
  | nil => simp [absorbAll, contributed, lastOwner?]
  | cons given contributions ih =>
    have hsplit : lastOwner? kind field (contributed (given :: contributions) state event) =
        (lastOwner? kind field (contributed contributions state event)).or
          (lastOwner? kind field (contributed [given] state event)) := by
      by_cases hsame : given.state = state ∧ given.event = event <;>
        simp [contributed, hsame, lastOwner?]
    have hstep := ih (summary.absorb given.state given.event given.footprint).2
    rw [getElem?_footprintAt_absorb, ← Option.or_assoc, ← hsplit] at hstep
    exact hstep

/-- Whatever else a summary absorbs before and after a footprint, the kind and the field of each of
its accesses stay recorded for its event and state, with the owner that the last later footprint
for them names, and with the access's own owner if none names another. So the access itself is
still held unless a later footprint displaces it by the same field of another object. -/
theorem absorbed_access_displaced_only_by_owner (summary : Summary)
    (before after : List Contribution) {footprint : Footprint} {access : Access}
    (haccess : access ∈ footprint) :
    let entry := (summary.absorbAll (before ++ ⟨state, event, footprint⟩ :: after)).footprintAt
      state event
    let later := contributed after state event
    (entry.entries access.kind)[access.field]? =
        some ((lastOwner? access.kind access.field later).getD access.owner) ∧
      (access ∈ entry ↔ ∀ owner, lastOwner? access.kind access.field later = some owner →
        owner = access.owner) ∧
      ((∀ other ∈ later, ∀ named ∈ other, named.kind = access.kind → named.field = access.field →
        named.owner = access.owner) → access ∈ entry) := by
  intro entry later
  have hentry : (entry.entries access.kind)[access.field]? =
      some ((lastOwner? access.kind access.field later).getD access.owner) := by
    have happend : summary.absorbAll (before ++ ⟨state, event, footprint⟩ :: after) =
        ((summary.absorbAll before).absorb state event footprint).2.absorbAll after := by
      simp [absorbAll]
    have hheld := mem_footprintAt_absorb_self (summary.absorbAll before) state event haccess
    simp only [entry, later, happend, getElem?_footprintAt_absorbAll, Footprint.mem_iff.mp hheld]
    cases lastOwner? access.kind access.field (contributed after state event) <;> rfl
  have hheld : access ∈ entry ↔ ∀ owner, lastOwner? access.kind access.field later = some owner →
      owner = access.owner := by
    rw [Footprint.mem_iff, hentry]
    cases lastOwner? access.kind access.field later <;> simp
  refine ⟨hentry, hheld, fun hagree => hheld.mpr fun owner howner => ?_⟩
  obtain ⟨other, hother, hnamed⟩ := exists_mem_of_lastOwner?_eq_some howner
  exact hagree other hother _ hnamed rfl rfl

/-- The contribution of an event that writes a field `x` of one object. -/
def writesX (owner : ObjectId) : Contribution := ⟨⟨1⟩, ⟨0⟩, .ofList [⟨.write, "x", owner⟩]⟩

/-- A write of `x` survives the writes of the same object, whatever another event does. -/
theorem absorbed_access_displaced_only_by_owner_writesX :
    let access : Access := ⟨.write, "x", ⟨7⟩⟩
    let before := [writesX ⟨8⟩]
    let after := [{ writesX ⟨8⟩ with event := ⟨1⟩ }, writesX ⟨7⟩]
    let entry := (empty.absorbAll (before ++ writesX ⟨7⟩ :: after)).footprintAt ⟨1⟩ ⟨0⟩
    let later := contributed after ⟨1⟩ ⟨0⟩
    access ∈ (writesX ⟨7⟩).footprint ∧
      (entry.entries access.kind)[access.field]? =
        some ((lastOwner? access.kind access.field later).getD access.owner) ∧
      (access ∈ entry ↔ ∀ owner, lastOwner? access.kind access.field later = some owner →
        owner = access.owner) ∧
      ((∀ other ∈ later, ∀ named ∈ other, named.kind = access.kind → named.field = access.field →
        named.owner = access.owner) → access ∈ entry) :=
  have haccess : (⟨.write, "x", ⟨7⟩⟩ : Access) ∈ (writesX ⟨7⟩).footprint := by decide +kernel
  ⟨haccess, absorbed_access_displaced_only_by_owner empty [writesX ⟨8⟩]
    [{ writesX ⟨8⟩ with event := ⟨1⟩ }, writesX ⟨7⟩] haccess⟩

/-- A write of `x` is lost once the same event is seen to write `x` of another object. -/
theorem absorbed_access_lost_writesX :
    let access : Access := ⟨.write, "x", ⟨7⟩⟩
    let contributions := [writesX ⟨7⟩, writesX ⟨8⟩]
    (writesX ⟨7⟩).footprint ∈ contributed contributions ⟨1⟩ ⟨0⟩ ∧
      access ∈ (writesX ⟨7⟩).footprint ∧
      access ∉ (empty.absorbAll contributions).footprintAt ⟨1⟩ ⟨0⟩ := by
  decide +kernel

end Summary

end EventOrder
