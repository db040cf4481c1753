import EventOrder.Footprint.Conflict

/-!
# The accesses of a footprint

A footprint is determined by the accesses it holds. This file says which accesses are held after
each operation, and what a reported conflict takes away: one access that conflicts, with whatever
is recorded for its kind and field.
-/

namespace EventOrder.Footprint

/-- What is recorded for a kind and a field after one more access. -/
theorem getElem?_entries_record (footprint : Footprint) (access : Access) (kind : AccessKind)
    (field : String) :
    ((footprint.record access).entries kind)[field]? =
      if access.kind = kind ∧ access.field = field then some access.owner
      else (footprint.entries kind)[field]? := by
  obtain ⟨accessKind, accessField, owner⟩ := access
  cases accessKind <;> cases kind <;>
    simp [record, entries, Std.ExtTreeMap.getElem?_insert]

/-- What is recorded for a kind and a field after an access was removed. -/
theorem getElem?_entries_erase (footprint : Footprint) (access : Access) (kind : AccessKind)
    (field : String) :
    ((footprint.erase access).entries kind)[field]? =
      if access.kind = kind ∧ access.field = field then none
      else (footprint.entries kind)[field]? := by
  obtain ⟨accessKind, accessField, owner⟩ := access
  cases accessKind <;> cases kind <;>
    simp [erase, entries, Std.ExtTreeMap.getElem?_erase]

/-- What is recorded for a kind and a field when the accesses of another footprint are added. -/
theorem getElem?_entries_merge (footprint more : Footprint) (kind : AccessKind) (field : String) :
    ((footprint.merge more).entries kind)[field]? =
      ((more.entries kind)[field]?).or (footprint.entries kind)[field]? := by
  cases kind <;> simp [merge, entries, Std.ExtTreeMap.getElem?_union]

/-- What is recorded for a kind and a field when the accesses of another footprint are left out. -/
theorem getElem?_entries_minus (footprint recorded : Footprint) (kind : AccessKind)
    (field : String) :
    ((footprint.minus recorded).entries kind)[field]? =
      ((footprint.entries kind)[field]?).filter
        fun owner => (recorded.entries kind)[field]? != some owner := by
  cases kind <;> exact Std.ExtTreeMap.getElem?_filter'

/-- The empty footprint holds no access. -/
@[simp]
theorem not_mem_empty (access : Access) : access ∉ empty := by
  rw [mem_iff]
  cases hkind : access.kind <;> simp [empty, entries]

/-- Adding an access keeps the accesses to other fields and those of the other kind. -/
theorem mem_record {footprint : Footprint} {access other : Access} :
    other ∈ footprint.record access ↔
      other = access ∨
        other ∈ footprint ∧ ¬(access.kind = other.kind ∧ access.field = other.field) := by
  obtain ⟨otherKind, otherField, otherOwner⟩ := other
  obtain ⟨accessKind, accessField, owner⟩ := access
  simp only [mem_iff, getElem?_entries_record, Access.mk.injEq]
  split <;> rename_i h
  · simp [h, eq_comm]
  · simp only [h, not_false_eq_true, and_true]
    constructor
    · exact Or.inr
    · rintro (⟨rfl, rfl, -⟩ | hmem)
      · exact absurd ⟨rfl, rfl⟩ h
      · exact hmem

/-- Removing an access keeps the accesses to other fields and those of the other kind. -/
theorem mem_erase {footprint : Footprint} {access other : Access} :
    other ∈ footprint.erase access ↔
      other ∈ footprint ∧ ¬(access.kind = other.kind ∧ access.field = other.field) := by
  simp only [mem_iff, getElem?_entries_erase]
  split <;> simp_all

/-- Merging adds every access of `more`, which displaces what was recorded for its field. -/
theorem mem_merge {footprint more : Footprint} {access : Access} :
    access ∈ footprint.merge more ↔
      access ∈ more ∨ access ∈ footprint ∧ (more.entries access.kind)[access.field]? = none := by
  simp only [mem_iff, getElem?_entries_merge]
  cases (more.entries access.kind)[access.field]? <;> simp

/-- What is news of a footprint are the accesses that were not recorded before. -/
theorem mem_minus {footprint recorded : Footprint} {access : Access} :
    access ∈ footprint.minus recorded ↔ access ∈ footprint ∧ access ∉ recorded := by
  simp only [mem_iff, getElem?_entries_minus, Option.filter_eq_some_iff]
  simp

/-- Footprints that hold the same accesses are equal. -/
theorem eq_of_forall_mem_iff {footprint other : Footprint}
    (h : ∀ access, access ∈ footprint ↔ access ∈ other) : footprint = other := by
  have hentries (kind : AccessKind) (field : String) :
      (footprint.entries kind)[field]? = (other.entries kind)[field]? := by
    apply Option.ext
    intro owner
    simpa only [mem_iff] using h ⟨kind, field, owner⟩
  obtain ⟨reads, writes⟩ := footprint
  obtain ⟨otherReads, otherWrites⟩ := other
  congr 1
  · exact Std.ExtTreeMap.ext_getElem? fun field => hentries .read field
  · exact Std.ExtTreeMap.ext_getElem? fun field => hentries .write field

/-- A footprint is empty when it holds no access. -/
theorem isEmpty_iff {footprint : Footprint} :
    footprint.isEmpty = true ↔ ∀ access, access ∉ footprint := by
  constructor
  · intro h access
    have hempty : footprint = empty := by
      obtain ⟨reads, writes⟩ := footprint
      simp only [isEmpty, Bool.and_eq_true, Std.ExtTreeMap.isEmpty_iff] at h
      simp [empty, h]
    simp [hempty]
  · intro h
    have hempty : footprint = empty := eq_of_forall_mem_iff fun access => by simp [h access]
    rw [hempty]
    rfl

/-- Adding accesses to the empty footprint gives just these. -/
@[simp]
theorem empty_merge (footprint : Footprint) : empty.merge footprint = footprint :=
  eq_of_forall_mem_iff fun access => by simp [mem_merge]

/-- Nothing of a footprint is left out when nothing was recorded before. -/
@[simp]
theorem minus_empty (footprint : Footprint) : footprint.minus empty = footprint :=
  eq_of_forall_mem_iff fun access => by simp [mem_minus]

/-- A footprint holds one access of each kind to fields of one name. -/
theorem eq_of_mem {footprint : Footprint} {access other : Access} (haccess : access ∈ footprint)
    (hother : other ∈ footprint) (hkind : other.kind = access.kind)
    (hfield : other.field = access.field) : other = access := by
  rw [mem_iff] at haccess hother
  rw [hkind, hfield, haccess, Option.some.injEq] at hother
  cases access
  cases other
  simp_all

/-- Adding accesses that are held already changes nothing. -/
theorem merge_eq_self {footprint more : Footprint} (h : ∀ access ∈ more, access ∈ footprint) :
    footprint.merge more = footprint := by
  refine eq_of_forall_mem_iff fun access => ?_
  rw [mem_merge]
  constructor
  · rintro (hmore | ⟨hheld, -⟩)
    · exact h access hmore
    · exact hheld
  · intro hheld
    cases howner : (more.entries access.kind)[access.field]? with
    | none => exact Or.inr ⟨hheld, rfl⟩
    | some owner =>
      have hmore : (⟨access.kind, access.field, owner⟩ : Access) ∈ more := mem_iff.mpr howner
      exact Or.inl (eq_of_mem hheld (h _ hmore) rfl rfl ▸ hmore)

/-- Adding the accesses of a footprint twice adds nothing. -/
@[simp]
theorem merge_self (footprint : Footprint) : footprint.merge footprint = footprint :=
  merge_eq_self fun _ haccess => haccess

/-- Recording accesses holds no others. -/
theorem mem_of_mem_foldl_record {accesses : List Access} {footprint : Footprint} {access : Access}
    (h : access ∈ accesses.foldl record footprint) : access ∈ accesses ∨ access ∈ footprint := by
  induction accesses generalizing footprint with
  | nil => exact Or.inr h
  | cons first accesses ih =>
    rcases ih h with hlisted | hheld
    · exact Or.inl (List.mem_cons_of_mem _ hlisted)
    · rcases mem_record.mp hheld with rfl | ⟨hbefore, -⟩
      · exact Or.inl List.mem_cons_self
      · exact Or.inr hbefore

/-- The footprint of a list holds no access that is not listed. -/
theorem mem_of_mem_ofList {accesses : List Access} {access : Access}
    (h : access ∈ ofList accesses) : access ∈ accesses :=
  (mem_of_mem_foldl_record h).resolve_right (not_mem_empty access)

/-- Recording accesses holds an access that no other one displaces. -/
theorem mem_foldl_record {accesses : List Access} {footprint : Footprint} {access : Access}
    (hsame : ∀ other ∈ accesses, other.kind = access.kind → other.field = access.field →
      other = access)
    (h : access ∈ accesses ∨ access ∈ footprint) : access ∈ accesses.foldl record footprint := by
  induction accesses generalizing footprint with
  | nil => exact h.resolve_left List.not_mem_nil
  | cons first accesses ih =>
    refine ih (fun other hother => hsame other (List.mem_cons_of_mem _ hother)) ?_
    rw [mem_record]
    rcases h with hlisted | hheld
    · rcases List.mem_cons.mp hlisted with rfl | hlisted
      · exact Or.inr (Or.inl rfl)
      · exact Or.inl hlisted
    · by_cases hplace : first.kind = access.kind ∧ first.field = access.field
      · exact Or.inr (Or.inl (hsame first List.mem_cons_self hplace.1 hplace.2).symm)
      · exact Or.inr (Or.inr ⟨hheld, hplace⟩)

/-- The listed accesses of a kind are those held. -/
theorem mem_accessesOf {footprint : Footprint} {kind : AccessKind} {access : Access} :
    access ∈ footprint.accessesOf kind ↔ access.kind = kind ∧ access ∈ footprint := by
  obtain ⟨accessKind, field, owner⟩ := access
  simp only [accessesOf, List.mem_map, Prod.exists, Access.mk.injEq, mem_iff]
  constructor
  · rintro ⟨listedField, listedOwner, hlisted, rfl, rfl, rfl⟩
    exact ⟨rfl, Std.ExtTreeMap.mem_toList_iff_getElem?_eq_some.mp hlisted⟩
  · rintro ⟨rfl, hheld⟩
    exact ⟨field, owner, Std.ExtTreeMap.mem_toList_iff_getElem?_eq_some.mpr hheld, rfl, rfl, rfl⟩

/-- The listed accesses are those held. -/
theorem mem_toList {footprint : Footprint} {access : Access} :
    access ∈ footprint.toList ↔ access ∈ footprint := by
  simp only [toList, List.mem_append, mem_accessesOf]
  cases access.kind <;> simp

/-- The accesses that are looked at for a conflict are those held. -/
theorem mem_writes_append_reads {footprint : Footprint} {access : Access} :
    access ∈ footprint.accessesOf .write ++ footprint.accessesOf .read ↔ access ∈ footprint := by
  simp only [List.mem_append, mem_accessesOf]
  cases access.kind <;> simp

/-- No conflict is reported exactly when no access conflicts. -/
theorem takeConflict?_eq_none_iff {footprint earlier : Footprint} :
    footprint.takeConflict? earlier = none ↔
      ∀ access ∈ footprint, access.conflictsWith earlier = false := by
  simp only [takeConflict?, firstConflict, Option.map_eq_none_iff, List.find?_eq_none,
    mem_writes_append_reads, Bool.not_eq_true]

/-- A conflict is reported where there is one. -/
theorem isSome_takeConflict? (footprint earlier : Footprint) :
    (footprint.takeConflict? earlier).isSome = footprint.conflictsWith earlier := by
  simp [takeConflict?, conflictsWith]

/-- A footprint without accesses conflicts with none. -/
theorem isEmpty_eq_false_of_takeConflict?_ne_none {footprint earlier : Footprint}
    (h : footprint.takeConflict? earlier ≠ none) : footprint.isEmpty = false := by
  rw [← Bool.not_eq_true, isEmpty_iff]
  intro hempty
  exact h (takeConflict?_eq_none_iff.mpr fun access haccess => absurd haccess (hempty access))

/-- A reported conflict takes one access away that does conflict. -/
theorem exists_of_takeConflict?_eq_some {footprint earlier rest : Footprint}
    (h : footprint.takeConflict? earlier = some rest) :
    ∃ access ∈ footprint, access.conflictsWith earlier = true ∧ rest = footprint.erase access := by
  obtain ⟨access, hfound, hrest⟩ := Option.map_eq_some_iff.mp h
  have hconflict : access.conflictsWith earlier = true := by
    simpa using List.find?_some hfound
  exact ⟨access, mem_writes_append_reads.mp (List.mem_of_find?_eq_some hfound), hconflict,
    hrest.symm⟩

/-- What a reported conflict leaves was there before. -/
theorem mem_of_takeConflict?_eq_some {footprint earlier rest : Footprint} {access : Access}
    (h : footprint.takeConflict? earlier = some rest) (haccess : access ∈ rest) :
    access ∈ footprint := by
  obtain ⟨conflicting, -, -, rfl⟩ := exists_of_takeConflict?_eq_some h
  exact (mem_erase.mp haccess).1

/-- An access conflicts with a footprint that holds an access to the same location, one of the two
being a write. -/
theorem conflictsWith_iff {access : Access} {earlier : Footprint} :
    access.conflictsWith earlier = true ↔
      ∃ other ∈ earlier, other.field = access.field ∧ other.owner = access.owner ∧
        (access.kind = .write ∨ other.kind = .write) := by
  obtain ⟨kind, field, owner⟩ := access
  have hholds (kind : AccessKind) :
      earlier.holds ⟨kind, field, owner⟩ = true ↔ ⟨kind, field, owner⟩ ∈ earlier := Iff.rfl
  cases kind
  · simp only [Access.conflictsWith, hholds, reduceCtorEq, false_or]
    constructor
    · intro h
      exact ⟨_, h, rfl, rfl, rfl⟩
    · rintro ⟨⟨_, _, _⟩, hmem, rfl, rfl, rfl⟩
      exact hmem
  · simp only [Access.conflictsWith, Bool.or_eq_true, hholds, true_or, and_true]
    constructor
    · rintro (h | h)
      · exact ⟨_, h, rfl, rfl⟩
      · exact ⟨_, h, rfl, rfl⟩
    · rintro ⟨⟨otherKind, _, _⟩, hmem, rfl, rfl⟩
      cases otherKind
      · exact Or.inl hmem
      · exact Or.inr hmem

/-- Nothing conflicts with no accesses. -/
@[simp]
theorem takeConflict?_empty (footprint : Footprint) : footprint.takeConflict? .empty = none := by
  rw [takeConflict?_eq_none_iff]
  intro access _
  rw [← Bool.not_eq_true, conflictsWith_iff]
  rintro ⟨other, hother, -⟩
  exact not_mem_empty other hother

end EventOrder.Footprint
