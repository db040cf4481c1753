import EventOrder.Json.Value

/-!
# JSON documents as trees

A tree holds a document whose shape is not known beforehand. The fields of an object are kept in
order, repeated ones included.
-/

namespace EventOrder.Json

/-- A JSON document. -/
inductive Tree where
  | null
  | boolean (value : Bool)
  | number (value : Number)
  | text (value : String)
  | list (items : List Tree)
  | object (fields : List (String × Tree))
deriving Repr, Inhabited

namespace Tree

/-- What a tree is called when something else was expected. -/
def found : Tree → Found
  | .null => .null
  | .boolean value => .boolean value
  | .number value => .number value
  | .text value => .text value
  | .list _ => .sequence
  | .object _ => .map

/-- A whole number. -/
def ofInt (value : Int) : Tree := .number (.whole value)

end Tree

namespace Reader

variable {α : Type}

/-- Reads the fields of an object up to its end, of which there must be fewer than given; those
read so far come in reverse. -/
def entries (value : Reader α) : Nat → Bool → List (String × α) → Reader (List (String × α))
  | 0, _, _ => fail .endInObject
  | most + 1, first, soFar => do
    match ← nextKey first with
    | none => pure soFar.reverse
    | some key =>
      colon
      let field ← value
      entries value most false ((key, field) :: soFar)

/-- Reads any value in which lists and objects are nested at most so deep. -/
def tree (most : Nat) : Nat → Reader Tree
  | 0 => byFirst fun c =>
    if c = '[' || c = '\x7b' then failAhead .nestedTooDeep
    else leaf
  | depth + 1 => byFirst fun c =>
    if c = '[' then
      enclosed closeList do skip; return .list (← elements (tree most depth) most true [])
    else if c = '\x7b' then
      enclosed closeObject do skip; return .object (← entries (tree most depth) most true [])
    else leaf
where
  /-- Reads a value that is neither a list nor an object. -/
  leaf : Reader Tree := do
    match ← found with
    | .boolean value => pure (.boolean value)
    | .number value => pure (.number value)
    | .text value => pure (.text value)
    | _ => pure .null

end Reader

end EventOrder.Json
