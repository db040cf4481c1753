import EventOrder.Footprint

/-!
# Conflicts between footprints

Two accesses conflict when they touch one location and at least one of them writes it. Conflicts
of a footprint against an earlier one are reported one at a time: each report names the least
conflicting write, or the least conflicting read when no write conflicts, and removes it, so that
an access is reported once per earlier event.
-/

namespace EventOrder

/-- A write conflicts with every access to its location, a read with writes only. -/
def Access.conflictsWith (access : Access) (earlier : Footprint) : Bool :=
  match access.kind with
  | .write => earlier.holds { access with kind := .read } || earlier.holds access
  | .read => earlier.holds { access with kind := .write }

namespace Footprint

/-- The first access that conflicts with `earlier`: writes are looked at before reads, each kind by
ascending field name. -/
def firstConflict (footprint earlier : Footprint) : Option Access :=
  (footprint.accessesOf .write ++ footprint.accessesOf .read).find? (·.conflictsWith earlier)

/-- Whether some access conflicts with `earlier`. -/
def conflictsWith (footprint earlier : Footprint) : Bool :=
  (footprint.firstConflict earlier).isSome

/-- What is left of the footprint after its first conflict with `earlier` is reported; nothing when
there is no conflict. -/
def takeConflict? (footprint earlier : Footprint) : Option Footprint :=
  (footprint.firstConflict earlier).map footprint.erase

end Footprint

end EventOrder
