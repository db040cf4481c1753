import EventOrder.Proofs.Footprint.Conflicts
import Mathlib.Data.Finset.Card

/-!
# Reports until none is left

A report takes the access that it names out of the footprint, so the conflicts with an earlier
footprint can be reported one after the other until none is left. There is one report for each
access that conflicts. That is one for each location only as long as the footprint has not both read
and written a location that the earlier one wrote: the report of the write leaves the read where it
is, and the location is reported once more.
-/

namespace EventOrder

/-- The location that an access touches. -/
def Access.location (access : Access) : String × ObjectId := (access.field, access.owner)

namespace Footprint

variable {footprint earlier rest : Footprint} {access : Access}

/-- What an attempt to report a conflict leaves: all of the footprint when there is none. -/
def afterAttempt (footprint earlier : Footprint) : Footprint :=
  (footprint.takeConflict? earlier).getD footprint

/-- Whether each of so many attempts in a row reports a conflict. -/
def answers (footprint earlier : Footprint) : Nat → List Bool
  | 0 => []
  | attempts + 1 =>
    (footprint.takeConflict? earlier).isSome ::
      (footprint.afterAttempt earlier).answers earlier attempts

/-- What so many attempts in a row leave. -/
def leftAfter (footprint earlier : Footprint) : Nat → Footprint
  | 0 => footprint
  | attempts + 1 => (footprint.afterAttempt earlier).leftAfter earlier attempts

/-- The accesses that conflict with an earlier footprint. -/
def conflicting (footprint earlier : Footprint) : List Access :=
  footprint.toList.filter (·.conflictsWith earlier)

/-- The locations at which a footprint conflicts with an earlier one. -/
def conflictingLocations (footprint earlier : Footprint) : Finset (String × ObjectId) :=
  ((footprint.conflicting earlier).map Access.location).toFinset

/-- The locations that a footprint read and wrote, and that an earlier one wrote. -/
def readAndWritten (footprint earlier : Footprint) : Finset (String × ObjectId) :=
  (footprint.conflictingLocations earlier).filter fun (field, owner) =>
    ⟨.read, field, owner⟩ ∈ footprint ∧ ⟨.write, field, owner⟩ ∈ footprint ∧
      ⟨.write, field, owner⟩ ∈ earlier

/-- The accesses that conflict are held. -/
theorem mem_conflicting :
    access ∈ footprint.conflicting earlier ↔
      access ∈ footprint ∧ access.conflictsWith earlier = true := by
  rw [conflicting, List.mem_filter, mem_toList]

/-- Whatever is done at a location conflicts with a write to it. -/
theorem conflictsWith_of_write {kind : AccessKind} {field : String} {owner : ObjectId}
    (hwrite : ⟨.write, field, owner⟩ ∈ earlier) :
    Access.conflictsWith ⟨kind, field, owner⟩ earlier = true :=
  conflictsWith_iff.mpr ⟨_, hwrite, rfl, rfl, Or.inr rfl⟩

/-- Both accesses to a location that was read and written conflict with a write to it. -/
theorem mem_readAndWritten {field : String} {owner : ObjectId} :
    (field, owner) ∈ footprint.readAndWritten earlier ↔
      ⟨.read, field, owner⟩ ∈ footprint ∧ ⟨.write, field, owner⟩ ∈ footprint ∧
        ⟨.write, field, owner⟩ ∈ earlier := by
  rw [readAndWritten, Finset.mem_filter, and_iff_right_iff_imp]
  rintro ⟨hread, -, hwrite⟩
  have hconflict := mem_conflicting.mpr ⟨hread, conflictsWith_of_write hwrite⟩
  exact List.mem_toFinset.mpr (List.mem_map_of_mem hconflict)

/-- The accesses of one kind are to different locations. -/
theorem nodup_map_location (footprint : Footprint) (kind : AccessKind) :
    ((footprint.accessesOf kind).map Access.location).Nodup := by
  rw [List.Nodup, List.pairwise_map]
  refine (footprint.pairwise_accessesOf kind).imp_of_mem ?_
  intro access other haccess hother hprecedes hsame
  have hkinds : access.kind = other.kind :=
    (mem_accessesOf.mp haccess).1.trans (mem_accessesOf.mp hother).1.symm
  rw [Access.Precedes, if_pos hkinds, show access.field = other.field from congrArg Prod.fst hsame]
    at hprecedes
  exact String.lt_irrefl _ hprecedes

/-- No access is listed twice. -/
theorem nodup_toList (footprint : Footprint) : footprint.toList.Nodup := by
  have hkind (kind : AccessKind) : (footprint.accessesOf kind).Nodup :=
    List.Nodup.of_map _ (footprint.nodup_map_location kind)
  refine List.nodup_append.mpr ⟨hkind .read, hkind .write, ?_⟩
  rintro access hread _ hwrite rfl
  have hkinds := (mem_accessesOf.mp hread).1.symm.trans (mem_accessesOf.mp hwrite).1
  exact AccessKind.noConfusion hkinds

/-- No access that conflicts is listed twice. -/
theorem nodup_conflicting (footprint earlier : Footprint) :
    (footprint.conflicting earlier).Nodup :=
  (nodup_toList footprint).filter _

/-- Removing an access that conflicts leaves the others that do. -/
theorem conflicting_perm_cons (haccess : access ∈ footprint)
    (hconflicts : access.conflictsWith earlier = true) :
    (footprint.conflicting earlier).Perm
      (access :: (footprint.erase access).conflicting earlier) := by
  have hgone : access ∉ (footprint.erase access).conflicting earlier := by
    rw [mem_conflicting, mem_erase_of_mem haccess]
    rintro ⟨⟨-, hne⟩, -⟩
    exact hne rfl
  rw [List.perm_ext_iff_of_nodup (nodup_conflicting _ _)
    (List.nodup_cons.mpr ⟨hgone, nodup_conflicting _ _⟩)]
  intro other
  rw [List.mem_cons, mem_conflicting, mem_conflicting, mem_erase_of_mem haccess]
  by_cases hsame : other = access
  · subst hsame
    simp [haccess, hconflicts]
  · simp [hsame]

/-- No conflict is reported exactly when no access conflicts. -/
theorem takeConflict?_eq_none_iff_conflicting :
    footprint.takeConflict? earlier = none ↔ footprint.conflicting earlier = [] := by
  rw [takeConflict?_eq_none_iff, List.eq_nil_iff_forall_not_mem]
  simp [mem_conflicting]

/-- An attempt reports a conflict when there is one, and leaves one less. -/
theorem attempt (footprint earlier : Footprint) :
    (footprint.takeConflict? earlier).isSome =
        decide (0 < (footprint.conflicting earlier).length) ∧
      ((footprint.afterAttempt earlier).conflicting earlier).length =
        (footprint.conflicting earlier).length - 1 ∧
      ∀ access : Access, access.conflictsWith earlier = false →
        (access ∈ footprint.afterAttempt earlier ↔ access ∈ footprint) := by
  cases htaken : footprint.takeConflict? earlier with
  | none =>
    have hnone := takeConflict?_eq_none_iff_conflicting.mp htaken
    simp [afterAttempt, htaken, hnone]
  | some rest =>
    obtain ⟨access, hfirst, rfl⟩ := exists_first_of_takeConflict? htaken
    have hlength := (conflicting_perm_cons hfirst.held hfirst.conflicts).length_eq
    simp only [afterAttempt, htaken, Option.getD_some, Option.isSome_some, hlength,
      List.length_cons, Nat.succ_pos, decide_true, Nat.add_sub_cancel, true_and]
    intro other hquiet
    rw [mem_erase_of_mem hfirst.held]
    constructor
    · exact And.left
    · intro hother
      refine ⟨hother, ?_⟩
      rintro rfl
      exact absurd (hquiet.symm.trans hfirst.conflicts) Bool.false_ne_true

/-- Attempts in a row report a conflict once for each access that conflicts, and then none. -/
theorem answers_eq (footprint earlier : Footprint) (attempts : Nat) :
    footprint.answers earlier attempts =
      List.replicate (min attempts (footprint.conflicting earlier).length) true ++
        List.replicate (attempts - (footprint.conflicting earlier).length) false := by
  induction attempts generalizing footprint with
  | zero => simp [answers]
  | succ attempts ih =>
    obtain ⟨hanswer, hlength, -⟩ := footprint.attempt earlier
    rw [answers, ih, hanswer, hlength]
    cases (footprint.conflicting earlier).length with
    | zero => simp [List.replicate_succ]
    | succ count =>
      rw [Nat.add_sub_cancel, Nat.add_min_add_right, Nat.add_sub_add_right, List.replicate_succ,
        List.cons_append, decide_eq_true (Nat.succ_pos count)]

/-- Attempts in a row leave less and less that conflicts, and all that does not. -/
theorem leftAfter_keeps (footprint earlier : Footprint) (attempts : Nat) :
    ((footprint.leftAfter earlier attempts).conflicting earlier).length =
        (footprint.conflicting earlier).length - attempts ∧
      ∀ access : Access, access.conflictsWith earlier = false →
        (access ∈ footprint.leftAfter earlier attempts ↔ access ∈ footprint) := by
  induction attempts generalizing footprint with
  | zero => exact ⟨rfl, fun _ _ => Iff.rfl⟩
  | succ attempts ih =>
    obtain ⟨-, hlength, hkept⟩ := footprint.attempt earlier
    obtain ⟨hrest, hlater⟩ := ih (footprint.afterAttempt earlier)
    refine ⟨?_, fun access hquiet => (hlater access hquiet).trans (hkept access hquiet)⟩
    rw [leftAfter, hrest, hlength]
    omega

/-- What is left when all conflicts were reported are the accesses without conflict. -/
theorem mem_leftAfter {attempts : Nat}
    (hall : (footprint.conflicting earlier).length ≤ attempts) :
    access ∈ footprint.leftAfter earlier attempts ↔
      access ∈ footprint ∧ access.conflictsWith earlier = false := by
  obtain ⟨hlength, hkept⟩ := footprint.leftAfter_keeps earlier attempts
  have hnone : (footprint.leftAfter earlier attempts).conflicting earlier = [] := by
    apply List.eq_nil_of_length_eq_zero
    omega
  have hquiet (haccess : access ∈ footprint.leftAfter earlier attempts) :
      access.conflictsWith earlier = false := by
    rw [← Bool.not_eq_true]
    intro hconflicts
    have hmem := mem_conflicting.mpr ⟨haccess, hconflicts⟩
    rw [hnone] at hmem
    exact List.not_mem_nil hmem
  constructor
  · intro haccess
    exact ⟨(hkept access (hquiet haccess)).mp haccess, hquiet haccess⟩
  · rintro ⟨haccess, hnot⟩
    exact (hkept access hnot).mpr haccess

/-- The locations of the accesses of one kind that conflict. -/
private def locationsOf (footprint earlier : Footprint) (kind : AccessKind) :
    List (String × ObjectId) :=
  ((footprint.accessesOf kind).filter (·.conflictsWith earlier)).map Access.location

/-- A location is among them when the access to it is held and conflicts. -/
private theorem mem_locationsOf {kind : AccessKind} {field : String} {owner : ObjectId} :
    (field, owner) ∈ footprint.locationsOf earlier kind ↔
      ⟨kind, field, owner⟩ ∈ footprint ∧
        Access.conflictsWith ⟨kind, field, owner⟩ earlier = true := by
  simp only [locationsOf, List.mem_map, List.mem_filter, mem_accessesOf]
  constructor
  · rintro ⟨⟨_, _, _⟩, ⟨⟨rfl, hheld⟩, hconflicts⟩, hplace⟩
    obtain ⟨rfl, rfl⟩ := Prod.mk.inj hplace
    exact ⟨hheld, hconflicts⟩
  · rintro ⟨hheld, hconflicts⟩
    exact ⟨_, ⟨⟨rfl, hheld⟩, hconflicts⟩, rfl⟩

/-- The location of each of them is listed once. -/
private theorem card_locationsOf (footprint earlier : Footprint) (kind : AccessKind) :
    (footprint.locationsOf earlier kind).toFinset.card =
      ((footprint.accessesOf kind).filter (·.conflictsWith earlier)).length := by
  have hsublist := (List.filter_sublist (p := (·.conflictsWith earlier))
    (l := footprint.accessesOf kind)).map Access.location
  have hnodup : (footprint.locationsOf earlier kind).Nodup :=
    (footprint.nodup_map_location kind).sublist hsublist
  rw [List.toFinset_card_of_nodup hnodup, locationsOf, List.length_map]

/-- The accesses that conflict are one for each location, and one more for each location that was
both read and written when the earlier footprint wrote it. -/
theorem length_conflicting (footprint earlier : Footprint) :
    (footprint.conflicting earlier).length =
      (footprint.conflictingLocations earlier).card + (footprint.readAndWritten earlier).card := by
  have hunion : footprint.conflictingLocations earlier =
      (footprint.locationsOf earlier .read).toFinset ∪
        (footprint.locationsOf earlier .write).toFinset := by
    rw [conflictingLocations, conflicting, toList, List.filter_append, List.map_append,
      List.toFinset_append]
    rfl
  have hinter : footprint.readAndWritten earlier =
      (footprint.locationsOf earlier .read).toFinset ∩
        (footprint.locationsOf earlier .write).toFinset := by
    ext ⟨field, owner⟩
    rw [mem_readAndWritten, Finset.mem_inter, List.mem_toFinset, List.mem_toFinset,
      mem_locationsOf, mem_locationsOf]
    constructor
    · rintro ⟨hread, hwrite, hearlier⟩
      exact ⟨⟨hread, conflictsWith_of_write hearlier⟩, hwrite, conflictsWith_of_write hearlier⟩
    · rintro ⟨⟨hread, hconflicts⟩, hwrite, -⟩
      -- a read conflicts with a write only
      exact ⟨hread, hwrite, hconflicts⟩
  rw [hunion, hinter, Finset.card_union_add_card_inter, card_locationsOf, card_locationsOf,
    conflicting, toList, List.filter_append, List.length_append]

/-- Attempts in a row to report a conflict succeed once for each access that conflicts with the
earlier footprint and never again, and then the accesses left are those without conflict. There is
one report for each location at which the footprints conflict exactly when no location that the
earlier one wrote was both read and written; each location that was is reported twice. -/
theorem reports_one_for_each_access (footprint earlier : Footprint) :
    let reports := (footprint.conflicting earlier).length
    (∀ attempts, footprint.answers earlier attempts =
      List.replicate (min attempts reports) true ++ List.replicate (attempts - reports) false) ∧
    (∀ attempts, reports ≤ attempts → ∀ access,
      access ∈ footprint.leftAfter earlier attempts ↔
        access ∈ footprint ∧ access.conflictsWith earlier = false) ∧
    reports = (footprint.conflictingLocations earlier).card +
      (footprint.readAndWritten earlier).card ∧
    (reports = (footprint.conflictingLocations earlier).card ↔ ∀ field owner,
      ⟨.read, field, owner⟩ ∈ footprint → ⟨.write, field, owner⟩ ∈ footprint →
        ⟨.write, field, owner⟩ ∉ earlier) := by
  intro reports
  have hreports := footprint.length_conflicting earlier
  refine ⟨footprint.answers_eq earlier, fun _ hall _ => mem_leftAfter hall, hreports, ?_⟩
  have htwice : reports = (footprint.conflictingLocations earlier).card ↔
      footprint.readAndWritten earlier = ∅ := by
    rw [← Finset.card_eq_zero]
    omega
  rw [htwice, Finset.eq_empty_iff_forall_notMem]
  constructor
  · intro hnone field owner hread hwrite hearlier
    exact hnone (field, owner) (mem_readAndWritten.mpr ⟨hread, hwrite, hearlier⟩)
  · rintro hnone ⟨field, owner⟩ hmem
    obtain ⟨hread, hwrite, hearlier⟩ := mem_readAndWritten.mp hmem
    exact hnone field owner hread hwrite hearlier

/-- An event that writes `x` after reading `y` conflicts at both with one that reads `x` and writes
`y`: there are two reports and then none, and its read of `z` is left. -/
theorem reports_one_for_each_access_readsZ :
    let footprint := ofList [⟨.read, "y", ⟨1⟩⟩, ⟨.write, "x", ⟨1⟩⟩, ⟨.read, "z", ⟨1⟩⟩]
    let earlier := ofList [⟨.read, "x", ⟨1⟩⟩, ⟨.write, "y", ⟨1⟩⟩]
    (footprint.conflictingLocations earlier).card = 2 ∧
      footprint.answers earlier 3 = [true, true, false] ∧
      ∀ access, access ∈ footprint.leftAfter earlier 2 ↔
        access ∈ footprint ∧ access.conflictsWith earlier = false := by
  intro footprint earlier
  obtain ⟨hanswers, hleft, -, hlocations⟩ := reports_one_for_each_access footprint earlier
  have htwo : (footprint.conflicting earlier).length = 2 := by decide +kernel
  have hapart (field : String) (owner : ObjectId) (hread : ⟨.read, field, owner⟩ ∈ footprint)
      (hwrite : ⟨.write, field, owner⟩ ∈ footprint) : ⟨.write, field, owner⟩ ∉ earlier := by
    have hlistedRead := mem_of_mem_ofList hread
    have hlistedWrite := mem_of_mem_ofList hwrite
    simp_all
  rw [htwo] at hanswers hleft hlocations
  exact ⟨(hlocations.mpr hapart).symm, hanswers 3, hleft 2 le_rfl⟩

/-- An event that reads and writes `x` is reported twice to conflict with one that writes `x`,
although this is the only location at which they do. -/
theorem location_reported_twice_x :
    let footprint := ofList [⟨.read, "x", ⟨1⟩⟩, ⟨.write, "x", ⟨1⟩⟩]
    let earlier := ofList [⟨.write, "x", ⟨1⟩⟩]
    (footprint.conflictingLocations earlier).card = 1 ∧
      footprint.answers earlier 2 = [true, true] := by
  decide +kernel

end Footprint

end EventOrder
