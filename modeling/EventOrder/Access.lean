import EventOrder.Identifier

/-!
# Accesses

What an executed instruction touches: a field of an object, read or written. A location is a field
name together with the owning object; two fields of one name on different objects are different
locations.
-/

namespace EventOrder

/-- Whether a field is read or written. -/
inductive AccessKind where
  | read
  | write
deriving DecidableEq, Repr, Inhabited

/-- Reads are marked `R` and writes `W`. -/
def AccessKind.text : AccessKind → String
  | .read => "R"
  | .write => "W"

/-- One access to one location. -/
structure Access where
  /-- Whether the location is read or written. -/
  kind : AccessKind
  /-- The field's name. -/
  field : String
  /-- The object that the field belongs to. -/
  owner : ObjectId
deriving DecidableEq, Repr, Inhabited

namespace Access

/-- Whether the access changes the location. -/
def isWrite (access : Access) : Bool := access.kind == .write

/-- An access is written as its mark, its field and its owner; the field is not quoted. -/
def text (access : Access) : String :=
  access.kind.text ++ " " ++ access.field ++ access.owner.text

end Access

end EventOrder
