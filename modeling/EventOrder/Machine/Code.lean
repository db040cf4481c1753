import EventOrder.Machine.Instruction

/-!
# Code

A program made ready to run: each variable that an operation names is replaced by its position
among the program's variables.
-/

namespace EventOrder

/-- The events of a program with their variables resolved. -/
structure Code where
  /-- The variables. -/
  declarations : List Variable
  /-- What each event does. -/
  bodies : List (List Instruction)
deriving Repr, Inhabited

namespace Code

/-- The values at the start. -/
def initial (code : Code) : List Int64 := code.declarations.map (·.initial)

/-- The events, in order. -/
def events (code : Code) : List Event := Event.firstEvents code.bodies.length

/-- What an event does; nothing when there is no such event. -/
def body (code : Code) (event : Event) : List Instruction := code.bodies[event.number]?.getD []

end Code

mutual

/-- The instruction for an operation, given the positions of variables; none when a variable has no
position. -/
def Operation.resolve? (position? : String → Option Nat) : Operation → Option Instruction
  | .read name => return .read (← position? name)
  | .write name value => return .write (← position? name) value
  | .increment name modulus => return .increment (← position? name) modulus
  | .copy source target => return .copy (← position? source) (← position? target)
  | .nested body => some (.nested (Operation.resolveAll position? body))

/-- The instructions for operations; one that names a variable without a position is passed over. -/
def Operation.resolveAll (position? : String → Option Nat) : List Operation → List Instruction
  | [] => []
  | operation :: operations =>
    match operation.resolve? position? with
    | some instruction => instruction :: Operation.resolveAll position? operations
    | none => Operation.resolveAll position? operations

end

/-- A program made ready to run. -/
def Program.code (program : Program) : Code where
  declarations := program.declarations
  bodies := program.events.map fun event =>
    Operation.resolveAll program.variableIndex? event.operations

end EventOrder
