import EventOrder.Access.Filter

/-!
# Programs

A program has shared variables that hold 64-bit integers and events whose bodies read and write
them. A variable is a field of an owner, and its name is the field's name; an event is named by
its position in the list of events.
-/

namespace EventOrder

/-- A shared variable. -/
structure Variable where
  /-- The name, which operations refer to. -/
  name : String
  /-- The object that the variable is a field of. -/
  owner : ObjectId
  /-- The value at the start of every run. -/
  initial : Int64
deriving DecidableEq, Repr, Inhabited

/-- One operation of an event's body. -/
inductive Operation where
  /-- Reads a variable. -/
  | read (name : String)
  /-- Gives a variable a value. -/
  | write (name : String) (value : Int64)
  /-- Moves a variable on to the next residue of a modulus. -/
  | increment (name : String) (modulus : Int64)
  /-- Gives the target the source's value. -/
  | copy (source target : String)
  /-- Runs operations under a secondary decision inside the event. -/
  | nested (body : List Operation)
deriving Repr, Inhabited

mutual

/-- Operations of one kind are equal when their parts are; operations of two kinds never are. -/
def Operation.decideEq : (a b : Operation) → Decidable (a = b)
  | .read x, .read y => decidable_of_iff (x = y) (by simp)
  | .write x v, .write y w => decidable_of_iff (x = y ∧ v = w) (by simp)
  | .increment x v, .increment y w => decidable_of_iff (x = y ∧ v = w) (by simp)
  | .copy x v, .copy y w => decidable_of_iff (x = y ∧ v = w) (by simp)
  | .nested x, .nested y =>
    match Operation.decideEqAll x y with
    | .isTrue h => .isTrue (by simp [h])
    | .isFalse h => .isFalse (by simp [h])
  | .read _, .write _ _ | .read _, .increment _ _ | .read _, .copy _ _ | .read _, .nested _
  | .write _ _, .read _ | .write _ _, .increment _ _ | .write _ _, .copy _ _
  | .write _ _, .nested _ | .increment _ _, .read _ | .increment _ _, .write _ _
  | .increment _ _, .copy _ _ | .increment _ _, .nested _ | .copy _ _, .read _
  | .copy _ _, .write _ _ | .copy _ _, .increment _ _ | .copy _ _, .nested _
  | .nested _, .read _ | .nested _, .write _ _ | .nested _, .increment _ _
  | .nested _, .copy _ _ => .isFalse nofun

/-- Bodies are equal when their operations are, one by one. -/
def Operation.decideEqAll : (a b : List Operation) → Decidable (a = b)
  | [], [] => .isTrue rfl
  | [], _ :: _ => .isFalse nofun
  | _ :: _, [] => .isFalse nofun
  | x :: xs, y :: ys =>
    match Operation.decideEq x y, Operation.decideEqAll xs ys with
    | .isTrue h, .isTrue hs => .isTrue (by simp [h, hs])
    | .isFalse h, _ => .isFalse (by simp [h])
    | _, .isFalse hs => .isFalse (by simp [hs])

end

instance : DecidableEq Operation := Operation.decideEq

mutual

/-- The variables that an operation names, in order. -/
def Operation.mentioned : Operation → List String
  | .read name => [name]
  | .write name _ => [name]
  | .increment name _ => [name]
  | .copy source target => [source, target]
  | .nested body => Operation.mentionedByAll body

/-- The variables that a list of operations names, in order. -/
def Operation.mentionedByAll : List Operation → List String
  | [] => []
  | operation :: operations => operation.mentioned ++ Operation.mentionedByAll operations

end

/-- An event and what it does. -/
structure EventBody where
  /-- The event's name. -/
  name : String
  /-- What happens when the event is taken. -/
  operations : List Operation
deriving DecidableEq, Repr, Inhabited

/-- An event-driven program. -/
structure Program where
  /-- The program's name. -/
  name : String
  /-- The shared variables. -/
  declarations : List Variable
  /-- The events, named by their positions. -/
  events : List EventBody
  /-- The fields that are not tracked. -/
  filter : PatternLists
deriving DecidableEq, Repr, Inhabited

namespace Program

/-- The position of the first variable of that name. -/
def variableIndex? (program : Program) (name : String) : Option Nat :=
  program.declarations.findIdx? (·.name == name)

/-- How many events there are. -/
def eventCount (program : Program) : Nat := program.events.length

end Program

end EventOrder
