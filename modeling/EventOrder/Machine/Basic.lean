import EventOrder.Explorer.Basic

/-!
# The machine

The machine is the host of a search: it holds the values of the program's variables and numbers
the states, which are the lists of values it settled in, from 1 in the order in which they first
came up. A snapshot is the list of values.
-/

namespace EventOrder

/-- The values of the variables, by position. -/
abbrev Values := List Int64

/-- The machine that runs a program. -/
structure Machine where
  /-- The values of the variables. -/
  values : Values
  /-- The number of every state settled in. -/
  numbering : Std.ExtTreeMap Values StateId
  /-- The state last settled in. -/
  state : StateId
  /-- Whether that state was settled in for the first time. -/
  isNew : Bool
  /-- The decision points that are not to be advanced again. -/
  closed : Std.ExtTreeSet PointId
  /-- The events that a restart asked to be offered next. -/
  installed : Option (List Event)
  /-- The name of the next decision point. -/
  nextPoint : PointId
deriving DecidableEq, Inhabited

namespace Machine

/-- How many states were settled in. -/
def statesSeen (machine : Machine) : Nat := machine.numbering.size

/-- Settles in the state that the values make; a state never settled in before gets the next
number. -/
def settle (machine : Machine) : Machine :=
  match machine.numbering[machine.values]? with
  | some state => { machine with state, isNew := false }
  | none =>
    let state : StateId := ⟨machine.statesSeen + 1⟩
    { machine with
      state, isNew := true, numbering := machine.numbering.insert machine.values state }

/-- A machine with the given values, settled in its first state. -/
def start (values : Values) : Machine :=
  settle ⟨values, ∅, .split, false, ∅, none, ⟨1⟩⟩

/-- What the explorer sees of the machine. -/
def view (machine : Machine) : HostView Values := ⟨machine.state, machine.values⟩

/-- Moves on to other values and settles. -/
def moveTo (machine : Machine) (values : Values) : Machine := { machine with values }.settle

/-- Does what the explorer asks for. -/
def obey (machine : Machine) : HostRequest Values → Machine
  | .captured => machine
  | .close point => { machine with closed := machine.closed.insert point }
  | .restore values => machine.moveTo values
  | .offer schedule => { machine with installed := some schedule }

/-- Opens a decision point that offers the events. -/
def openPoint (machine : Machine) (offered : List Event) : Machine × DecisionPoint :=
  ({ machine with nextPoint := ⟨machine.nextPoint.number + 1⟩ }, .start machine.nextPoint offered)

/-- Opens a decision point that offers the events a restart asked for. -/
def openInstalled (machine : Machine) : Machine × DecisionPoint :=
  { machine with installed := none }.openPoint (machine.installed.getD [])

end Machine

end EventOrder
