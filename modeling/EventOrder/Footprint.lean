import EventOrder.Access

/-!
# Footprints

The footprint of an event is the set of accesses its body performed. For each field name it keeps
one owner that was read and one that was written: recording the same field again, of either kind,
replaces the owner of that kind. Fields are listed in ascending order of their names.
-/

namespace EventOrder

/-- The accesses that an event performed. -/
structure Footprint where
  /-- The owner last read, by field name. -/
  reads : Std.ExtTreeMap String ObjectId
  /-- The owner last written, by field name. -/
  writes : Std.ExtTreeMap String ObjectId
deriving DecidableEq, Inhabited

namespace Footprint

/-- The footprint of an event that touches nothing. -/
def empty : Footprint := ⟨∅, ∅⟩

/-- The owners recorded for accesses of one kind. -/
def entries (footprint : Footprint) : AccessKind → Std.ExtTreeMap String ObjectId
  | .read => footprint.reads
  | .write => footprint.writes

/-- Whether this very access, owner included, is in the footprint. -/
def holds (footprint : Footprint) (access : Access) : Bool :=
  (footprint.entries access.kind)[access.field]? == some access.owner

instance : Membership Access Footprint := ⟨fun footprint access => footprint.holds access = true⟩

instance (access : Access) (footprint : Footprint) : Decidable (access ∈ footprint) :=
  inferInstanceAs (Decidable (footprint.holds access = true))

/-- An access in the footprint is the one its kind and field are recorded with. -/
theorem mem_iff {access : Access} {footprint : Footprint} :
    access ∈ footprint ↔ (footprint.entries access.kind)[access.field]? = some access.owner := by
  change footprint.holds access = true ↔ _
  simp [holds]

/-- Adds an access; an owner recorded before for the same kind and field is replaced. -/
def record (footprint : Footprint) (access : Access) : Footprint :=
  match access.kind with
  | .read => { footprint with reads := footprint.reads.insert access.field access.owner }
  | .write => { footprint with writes := footprint.writes.insert access.field access.owner }

/-- The footprint of a list of accesses, recorded in order. -/
def ofList (accesses : List Access) : Footprint := accesses.foldl record empty

/-- Removes what is recorded for the access's kind and field. -/
def erase (footprint : Footprint) (access : Access) : Footprint :=
  match access.kind with
  | .read => { footprint with reads := footprint.reads.erase access.field }
  | .write => { footprint with writes := footprint.writes.erase access.field }

/-- Whether nothing is recorded. -/
def isEmpty (footprint : Footprint) : Bool :=
  footprint.reads.isEmpty && footprint.writes.isEmpty

/-- How many accesses are recorded. -/
def size (footprint : Footprint) : Nat := footprint.reads.size + footprint.writes.size

/-- The recorded accesses of one kind, by ascending field name. -/
def accessesOf (footprint : Footprint) (kind : AccessKind) : List Access :=
  (footprint.entries kind).toList.map fun (field, owner) => ⟨kind, field, owner⟩

/-- The recorded accesses: the reads, then the writes. -/
def toList (footprint : Footprint) : List Access :=
  footprint.accessesOf .read ++ footprint.accessesOf .write

/-- The accesses of `footprint` that `recorded` does not hold. -/
def minus (footprint recorded : Footprint) : Footprint where
  reads := footprint.reads.filter fun field owner => recorded.reads[field]? != some owner
  writes := footprint.writes.filter fun field owner => recorded.writes[field]? != some owner

/-- Adds every access of `more`; where both record a field, the owner in `more` stays. -/
def merge (footprint more : Footprint) : Footprint where
  reads := footprint.reads ∪ more.reads
  writes := footprint.writes ∪ more.writes

/-- A footprint is written as its accesses between braces. -/
def text (footprint : Footprint) : String :=
  "\x7b" ++ ", ".intercalate (footprint.toList.map Access.text) ++ "\x7d"

end Footprint

end EventOrder
