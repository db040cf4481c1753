import EventOrder.Program.Basic

/-!
# Well-formed programs

A program is well formed when its variables have different names, its events have different names,
every modulus is positive and every variable that an operation names is declared. The check
reports the first violation: variables come first, then each event in turn, its name before its
operations, operations in document order, and a modulus before the variable that it applies to.
-/

namespace EventOrder

/-- What is wrong with a program. -/
inductive Violation where
  /-- A variable has the name of one before it. -/
  | duplicateVariable (name : String)
  /-- An event has the name of one before it. -/
  | duplicateEvent (name : String)
  /-- An operation of the event names a variable that is not declared. -/
  | unknownVariable (event name : String)
  /-- An operation of the event increments a variable with a modulus that is not positive. -/
  | badModulus (event name : String) (modulus : Int64)
deriving DecidableEq, Repr, Inhabited

/-- The wording of a violation. -/
def Violation.message : Violation → String
  | .duplicateVariable name => "duplicate variable '" ++ name ++ "'"
  | .duplicateEvent name => "duplicate event '" ++ name ++ "'"
  | .unknownVariable event name =>
    "event '" ++ event ++ "' references unknown variable '" ++ name ++ "'"
  | .badModulus event name modulus =>
    "event '" ++ event ++ "' increments '" ++ name ++ "' with non-positive modulus " ++
      toString modulus.toInt

/-- The first name that occurs before in the list or among those already seen. -/
def firstRepeated? (seen : Std.ExtTreeSet String) : List String → Option String
  | [] => none
  | name :: names =>
    if seen.contains name then some name else firstRepeated? (seen.insert name) names

/-- The first of the names that is not declared, as a violation by the event. -/
def undeclared? (declared : Std.ExtTreeSet String) (event : String) (names : List String) :
    Option Violation :=
  (names.find? fun name => !declared.contains name).map (.unknownVariable event)

mutual

/-- The first violation within an operation of an event. -/
def Operation.violation? (declared : Std.ExtTreeSet String) (event : String) :
    Operation → Option Violation
  | .read name => undeclared? declared event [name]
  | .write name _ => undeclared? declared event [name]
  | .increment name modulus =>
    if modulus ≤ 0 then some (.badModulus event name modulus)
    else undeclared? declared event [name]
  | .copy source target => undeclared? declared event [source, target]
  | .nested body => Operation.firstViolation? declared event body

/-- The first violation within a list of operations of an event. -/
def Operation.firstViolation? (declared : Std.ExtTreeSet String) (event : String) :
    List Operation → Option Violation
  | [] => none
  | operation :: operations =>
    match operation.violation? declared event with
    | some violation => some violation
    | none => Operation.firstViolation? declared event operations

end

/-- The first violation within a list of events, given the names of the events before. -/
def EventBody.firstViolation? (declared seen : Std.ExtTreeSet String) :
    List EventBody → Option Violation
  | [] => none
  | event :: events =>
    if seen.contains event.name then some (.duplicateEvent event.name)
    else
      match Operation.firstViolation? declared event.name event.operations with
      | some violation => some violation
      | none => EventBody.firstViolation? declared (seen.insert event.name) events

namespace Program

/-- The declared variables. -/
def declared (program : Program) : Std.ExtTreeSet String :=
  .ofList (program.declarations.map (·.name))

/-- The first violation of a program; none when it is well formed. -/
def violation? (program : Program) : Option Violation :=
  match firstRepeated? ∅ (program.declarations.map (·.name)) with
  | some name => some (.duplicateVariable name)
  | none => EventBody.firstViolation? program.declared ∅ program.events

end Program

end EventOrder
