import EventOrder.Access

/-!
# Access filters

A filter decides which accesses are tracked. Fields of the surrounding runtime are noise: tracking
them would make every pair of events look dependent. A filter may remember what it was asked
before, so each answer comes with the filter to ask next.
-/

namespace EventOrder

/-- Something that decides whether an access is tracked. -/
class AccessFilter (φ : Type) where
  /-- The decision, and the filter to ask next. -/
  consider : φ → Access → Bool × φ

/-- The filter that tracks every access. -/
structure TrackAll where
deriving DecidableEq, Repr, Inhabited

instance : AccessFilter TrackAll := ⟨fun filter _ => (true, filter)⟩

/-- Patterns of field names that are not tracked. -/
structure PatternLists where
  /-- Beginnings of excluded fields. -/
  startsWith : List String
  /-- Ends of excluded fields. -/
  endsWith : List String
  /-- Parts of excluded fields. -/
  contains : List String
  /-- Beginnings of fields that are excluded once they are written. -/
  writeStartsWith : List String
deriving DecidableEq, Repr, Inhabited

namespace PatternLists

/-- No pattern at all. -/
def empty : PatternLists := ⟨[], [], [], []⟩

/-- Whether there is no pattern. -/
def isEmpty (patterns : PatternLists) : Bool :=
  patterns.startsWith.isEmpty && patterns.endsWith.isEmpty && patterns.contains.isEmpty &&
    patterns.writeStartsWith.isEmpty

/-- The patterns of both. -/
def append (patterns more : PatternLists) : PatternLists :=
  ⟨patterns.startsWith ++ more.startsWith, patterns.endsWith ++ more.endsWith,
    patterns.contains ++ more.contains, patterns.writeStartsWith ++ more.writeStartsWith⟩

/-- The fields of a managed runtime's own classes, closures and event plumbing. -/
def runtimeFields : PatternLists where
  startsWith := ["java", "org", "sun", "com", "gov", "groovy"]
  endsWith := ["stMC", "callSiteArray", "metaClass", "staticClassInfo", "__constructor__",
    "sendEvent", "Object", "reference", "location", "app", "state", "log", "functionList",
    "objectList", "eventList", "valueList", "settings", "printToConsole", "app1", "app2"]
  contains := ["_closure"]
  writeStartsWith := ["Event"]

/-- Whether the pattern begins the field. -/
def begins (field pattern : String) : Bool := pattern.toList.isPrefixOf field.toList

/-- Whether the pattern ends the field. -/
def ends (field pattern : String) : Bool := pattern.toList.isSuffixOf field.toList

/-- Whether the characters occur next to each other in a text. -/
def occursIn (pattern : List Char) : List Char → Bool
  | [] => pattern.isEmpty
  | c :: rest => pattern.isPrefixOf (c :: rest) || occursIn pattern rest

/-- Whether accesses of either kind to the field are excluded. -/
def excludes (patterns : PatternLists) (field : String) : Bool :=
  patterns.startsWith.any (begins field) || patterns.endsWith.any (ends field) ||
    patterns.contains.any fun pattern => occursIn pattern.toList field.toList

/-- Whether the field is excluded once it is written. -/
def excludesWritten (patterns : PatternLists) (field : String) : Bool :=
  patterns.writeStartsWith.any (begins field)

end PatternLists

/-- A filter by patterns that remembers its decision for every field. A field excluded on a write
stays excluded, so later reads of it are dropped too. -/
structure PatternFilter where
  /-- The patterns. -/
  patterns : PatternLists
  /-- The fields found worth tracking. -/
  tracked : Std.ExtTreeSet String
  /-- The fields found not worth tracking. -/
  dropped : Std.ExtTreeSet String
deriving DecidableEq, Inhabited

namespace PatternFilter

/-- A filter that has decided nothing yet. -/
def ofPatterns (patterns : PatternLists) : PatternFilter := ⟨patterns, ∅, ∅⟩

/-- Remembers that the field is not tracked. -/
def drop (filter : PatternFilter) (field : String) : Bool × PatternFilter :=
  (false, { filter with dropped := filter.dropped.insert field })

/-- Remembers that the field is tracked. -/
def track (filter : PatternFilter) (field : String) : Bool × PatternFilter :=
  (true, { filter with tracked := filter.tracked.insert field })

/-- Decides on one access: a remembered exclusion stands, a write may exclude anew, and only then
is a remembered inclusion used. -/
def consider (filter : PatternFilter) (access : Access) : Bool × PatternFilter :=
  let field := access.field
  if filter.dropped.contains field then (false, filter)
  else if access.isWrite && filter.patterns.excludesWritten field then filter.drop field
  else if filter.tracked.contains field then (true, filter)
  else if filter.patterns.excludes field then filter.drop field
  else filter.track field

end PatternFilter

instance : AccessFilter PatternFilter := ⟨PatternFilter.consider⟩

end EventOrder
