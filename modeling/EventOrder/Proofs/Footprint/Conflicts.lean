import EventOrder.Proofs.Footprint.Accesses

/-!
# Conflicts between footprints

Two footprints conflict when they touch one location and one of them writes it. The test looks at
the writes of one footprint first and at its reads then, each time at different accesses of the
other, and yet it does not matter from which side it is asked. The conflict that is reported is the
first one in this order, and the report takes away the access that it names and no other.
-/

namespace EventOrder

/-- The order in which conflicts are looked for: writes before reads, each kind by field name. -/
def Access.Precedes (access other : Access) : Prop :=
  if access.kind = other.kind then access.field < other.field else access.kind = .write

namespace Footprint

variable {footprint earlier rest : Footprint} {access other : Access}

/-- The access that a report names: the first one that conflicts with the earlier footprint. -/
structure IsFirstConflict (footprint earlier : Footprint) (access : Access) : Prop where
  /-- It is one of the accesses. -/
  held : access ∈ footprint
  /-- It conflicts. -/
  conflicts : access.conflictsWith earlier = true
  /-- It comes before every other one that conflicts. -/
  first : ∀ other ∈ footprint, other.conflictsWith earlier = true → other ≠ access →
    access.Precedes other

/-- The accesses of one kind are listed in order. -/
theorem pairwise_accessesOf (footprint : Footprint) (kind : AccessKind) :
    (footprint.accessesOf kind).Pairwise Access.Precedes := by
  have hordered := Std.ExtTreeMap.ordered_keys_toList (t := footprint.entries kind)
  rw [accessesOf, List.pairwise_map]
  refine hordered.imp fun hless => ?_
  have hfield := compareOfLessAndEq_eq_lt.mp hless
  simpa [Access.Precedes] using hfield

/-- Accesses are searched for a conflict in order. -/
private theorem pairwise_searched (footprint : Footprint) :
    (footprint.accessesOf .write ++ footprint.accessesOf .read).Pairwise Access.Precedes := by
  rw [List.pairwise_append]
  refine ⟨footprint.pairwise_accessesOf .write, footprint.pairwise_accessesOf .read, ?_⟩
  intro access haccess other hother
  have hwrite := (mem_accessesOf.mp haccess).1
  have hread := (mem_accessesOf.mp hother).1
  have hkinds : access.kind ≠ other.kind := by simp [hwrite, hread]
  rw [Access.Precedes, if_neg hkinds]
  exact hwrite

/-- The conflict that is found is the first one. -/
theorem isFirstConflict_of_firstConflict (h : footprint.firstConflict earlier = some access) :
    footprint.IsFirstConflict earlier access := by
  obtain ⟨hconflicts, before, after, hsplit, hclear⟩ := List.find?_eq_some_iff_append.mp h
  have hsearched : access ∈ before ++ access :: after := by simp
  rw [← hsplit] at hsearched
  refine ⟨mem_writes_append_reads.mp hsearched, hconflicts, ?_⟩
  intro other hother hconflict hne
  have hlisted := mem_writes_append_reads.mpr hother
  have hordered := footprint.pairwise_searched
  rw [hsplit] at hlisted hordered
  -- an access that was looked at before does not conflict, so the other one is looked at later
  have hlater : other ∈ after := by
    rcases List.mem_append.mp hlisted with hbefore | hhere
    · have hnone := hclear other hbefore
      simp [hconflict] at hnone
    · exact (List.mem_cons.mp hhere).resolve_left hne
  exact List.rel_of_pairwise_cons (List.pairwise_append.mp hordered).2.1 hlater

/-- Removing an access that is held removes this one only. -/
theorem mem_erase_of_mem (haccess : access ∈ footprint) :
    other ∈ footprint.erase access ↔ other ∈ footprint ∧ other ≠ access := by
  rw [mem_erase]
  constructor
  · rintro ⟨hother, hplace⟩
    refine ⟨hother, ?_⟩
    rintro rfl
    exact hplace ⟨rfl, rfl⟩
  · rintro ⟨hother, hne⟩
    refine ⟨hother, ?_⟩
    rintro ⟨hkind, hfield⟩
    exact hne (eq_of_mem haccess hother hkind.symm hfield.symm)

/-- A field that is recorded is counted. -/
private theorem size_erase_add_one {owners : Std.ExtTreeMap String ObjectId} {field : String}
    {owner : ObjectId} (h : owners[field]? = some owner) :
    (owners.erase field).size + 1 = owners.size := by
  have hmem : field ∈ owners := Std.ExtTreeMap.mem_iff_isSome_getElem?.mpr (by simp [h])
  have hsize := Std.ExtTreeMap.size_erase (t := owners) (k := field)
  have hpositive : owners.size ≠ 0 := by
    intro hzero
    rw [← Std.ExtTreeMap.eq_empty_iff_size_eq_zero] at hzero
    simp [hzero] at h
  rw [if_pos (Std.ExtTreeMap.contains_iff_mem.mpr hmem)] at hsize
  omega

/-- It leaves one access less. -/
theorem size_erase_of_mem (haccess : access ∈ footprint) :
    (footprint.erase access).size + 1 = footprint.size := by
  obtain ⟨kind, field, owner⟩ := access
  rw [mem_iff] at haccess
  cases kind with
  | read =>
    have hreads : (footprint.reads.erase field).size + 1 = footprint.reads.size :=
      size_erase_add_one haccess
    simp only [erase, size]
    omega
  | write =>
    have hwrites : (footprint.writes.erase field).size + 1 = footprint.writes.size :=
      size_erase_add_one haccess
    simp only [erase, size]
    omega

/-- A reported conflict is the first one, and the report removes just this. -/
theorem exists_first_of_takeConflict? (h : footprint.takeConflict? earlier = some rest) :
    ∃ access, footprint.IsFirstConflict earlier access ∧ rest = footprint.erase access := by
  obtain ⟨access, hfound, hrest⟩ := Option.map_eq_some_iff.mp h
  exact ⟨access, isFirstConflict_of_firstConflict hfound, hrest.symm⟩

/-- Footprints conflict when an access of the one conflicts with the other. -/
theorem conflictsWith_iff_exists :
    footprint.conflictsWith earlier = true ↔
      ∃ access ∈ footprint, access.conflictsWith earlier = true := by
  rw [← isSome_takeConflict?, Option.isSome_iff_ne_none, ne_eq, takeConflict?_eq_none_iff]
  simp

/-- They conflict when both hold an access to one location, one of the two being a write. -/
theorem conflictsWith_iff_shared :
    footprint.conflictsWith earlier = true ↔
      ∃ access ∈ footprint, ∃ other ∈ earlier, access.field = other.field ∧
        access.owner = other.owner ∧ (access.kind = .write ∨ other.kind = .write) := by
  rw [conflictsWith_iff_exists]
  constructor
  · rintro ⟨access, haccess, hconflicts⟩
    obtain ⟨other, hother, hfield, howner, hwrites⟩ := conflictsWith_iff.mp hconflicts
    exact ⟨access, haccess, other, hother, hfield.symm, howner.symm, hwrites⟩
  · rintro ⟨access, haccess, other, hother, hfield, howner, hwrites⟩
    have hconflicts := conflictsWith_iff.mpr ⟨other, hother, hfield.symm, howner.symm, hwrites⟩
    exact ⟨access, haccess, hconflicts⟩

/-- It does not matter from which side a conflict is asked for. -/
theorem conflictsWith_comm (footprint earlier : Footprint) :
    footprint.conflictsWith earlier = earlier.conflictsWith footprint := by
  have hother {footprint earlier : Footprint} (h : footprint.conflictsWith earlier = true) :
      earlier.conflictsWith footprint = true := by
    obtain ⟨access, haccess, other, hother, hfield, howner, hwrites⟩ :=
      conflictsWith_iff_shared.mp h
    exact conflictsWith_iff_shared.mpr
      ⟨other, hother, access, haccess, hfield.symm, howner.symm, hwrites.symm⟩
  exact Bool.eq_iff_iff.mpr ⟨hother, hother⟩

/-- Footprints conflict exactly when some field of some object is written in the one and accessed in
the other, or read in the one and written in the other. So it does not matter from which side the
conflict is asked for, and footprints without writes never conflict. A conflict is reported exactly
when there is one. The report names the least write that conflicts, or the least read when no write
does, by field name, and it removes this access and no other. -/
theorem conflict_test_is_exact (footprint earlier : Footprint) :
    (footprint.conflictsWith earlier = true ↔ ∃ field owner,
      ⟨.write, field, owner⟩ ∈ footprint ∧
          (⟨.read, field, owner⟩ ∈ earlier ∨ ⟨.write, field, owner⟩ ∈ earlier) ∨
        ⟨.read, field, owner⟩ ∈ footprint ∧ ⟨.write, field, owner⟩ ∈ earlier) ∧
    footprint.conflictsWith earlier = earlier.conflictsWith footprint ∧
    ((∀ access ∈ footprint, access.kind = .read) → (∀ access ∈ earlier, access.kind = .read) →
      footprint.conflictsWith earlier = false) ∧
    (footprint.takeConflict? earlier).isSome = footprint.conflictsWith earlier ∧
    ∀ rest, footprint.takeConflict? earlier = some rest →
      ∃ access, footprint.IsFirstConflict earlier access ∧ rest.size + 1 = footprint.size ∧
        ∀ other, other ∈ rest ↔ other ∈ footprint ∧ other ≠ access := by
  refine ⟨?_, footprint.conflictsWith_comm earlier, ?_, footprint.isSome_takeConflict? earlier, ?_⟩
  · rw [conflictsWith_iff_shared]
    constructor
    · rintro ⟨⟨kind, field, owner⟩, haccess, ⟨otherKind, _, _⟩, hother, rfl, rfl, hwrites⟩
      refine ⟨field, owner, ?_⟩
      cases kind with
      | write =>
        left
        refine ⟨haccess, ?_⟩
        cases otherKind with
        | read => exact Or.inl hother
        | write => exact Or.inr hother
      | read =>
        right
        have hwrite : otherKind = .write := hwrites.resolve_left AccessKind.noConfusion
        exact ⟨haccess, hwrite ▸ hother⟩
    · rintro ⟨field, owner, ⟨haccess, hother | hother⟩ | ⟨haccess, hother⟩⟩
      · exact ⟨_, haccess, _, hother, rfl, rfl, Or.inl rfl⟩
      · exact ⟨_, haccess, _, hother, rfl, rfl, Or.inl rfl⟩
      · exact ⟨_, haccess, _, hother, rfl, rfl, Or.inr rfl⟩
  · intro hreads hreadsEarlier
    rw [← Bool.not_eq_true, conflictsWith_iff_shared]
    rintro ⟨access, haccess, other, hother, -, -, hwrite | hwrite⟩
    · exact absurd ((hreads access haccess).symm.trans hwrite) (by simp)
    · exact absurd ((hreadsEarlier other hother).symm.trans hwrite) (by simp)
  · intro rest hrest
    obtain ⟨access, hfirst, rfl⟩ := exists_first_of_takeConflict? hrest
    exact ⟨access, hfirst, size_erase_of_mem hfirst.held, fun other => mem_erase_of_mem hfirst.held⟩

/-- An event that reads a field of one object and writes a field of this name of another one
conflicts with a write to the first object, from either side, and its read is reported. Two events
that only read the field do not conflict. -/
theorem conflict_test_is_exact_readsX :
    let footprint := ofList [⟨.read, "x", ⟨1⟩⟩, ⟨.write, "x", ⟨2⟩⟩]
    let earlier := ofList [⟨.write, "x", ⟨1⟩⟩]
    let reads := ofList [⟨.read, "x", ⟨1⟩⟩]
    footprint.conflictsWith earlier = true ∧ earlier.conflictsWith footprint = true ∧
      reads.conflictsWith reads = false ∧
      footprint.takeConflict? earlier = some (ofList [⟨.write, "x", ⟨2⟩⟩]) ∧
      ∃ access, footprint.IsFirstConflict earlier access ∧ access = ⟨.read, "x", ⟨1⟩⟩ := by
  intro footprint earlier reads
  obtain ⟨hexact, hside, -, -, hreported⟩ := conflict_test_is_exact footprint earlier
  obtain ⟨-, -, hquiet, -⟩ := conflict_test_is_exact reads reads
  have hread : ⟨.read, "x", ⟨1⟩⟩ ∈ footprint ∧ ⟨.write, "x", ⟨1⟩⟩ ∈ earlier := by decide +kernel
  have hconflict : footprint.conflictsWith earlier = true :=
    hexact.mpr ⟨"x", ⟨1⟩, Or.inr hread⟩
  have honly (access : Access) (haccess : access ∈ reads) : access.kind = .read := by
    rw [List.mem_singleton.mp (mem_of_mem_ofList haccess)]
  have htaken : footprint.takeConflict? earlier = some (ofList [⟨.write, "x", ⟨2⟩⟩]) := by
    decide +kernel
  obtain ⟨access, hfirst, -, hrest⟩ := hreported _ htaken
  refine ⟨hconflict, hside ▸ hconflict, hquiet honly honly, htaken, access, hfirst, ?_⟩
  -- what is gone from the footprint is the read
  have hgone : ⟨.read, "x", ⟨1⟩⟩ ∉ ofList [⟨.write, "x", ⟨2⟩⟩] := by decide +kernel
  refine Decidable.byContradiction fun hne => ?_
  exact hgone ((hrest _).mpr ⟨hread.1, Ne.symm hne⟩)

end Footprint

end EventOrder
