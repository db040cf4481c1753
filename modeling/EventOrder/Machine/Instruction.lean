import EventOrder.Decision.Point
import EventOrder.Program.Basic

/-!
# Instructions

An instruction is an operation whose variables are named by their positions. What it does has two
sides that do not depend on each other: its effect on the values, and the accesses that are
observed while it runs. The accesses are the same whatever the values are.
-/

namespace EventOrder

/-- An operation on variables named by their positions. -/
inductive Instruction where
  /-- Reads a variable. -/
  | read (slot : Nat)
  /-- Gives a variable a value. -/
  | write (slot : Nat) (value : Int64)
  /-- Moves a variable on to the next residue of a modulus. -/
  | increment (slot : Nat) (modulus : Int64)
  /-- Gives the target the source's value. -/
  | copy (source target : Nat)
  /-- Runs instructions under a secondary decision. -/
  | nested (body : List Instruction)
deriving Repr, Inhabited

/-- The value after an increment. The old value is reduced before one is added, so no sum leaves
the range of 64 bits. -/
def nextResidue (value modulus : Int64) : Int64 :=
  .ofInt ((value.toInt % modulus.toInt + 1) % modulus.toInt)

/-- The value of a variable. -/
def valueAt (values : List Int64) (slot : Nat) : Int64 := values[slot]?.getD 0

mutual

/-- The values after an instruction. -/
def Instruction.effect : Instruction → List Int64 → List Int64
  | .read _, values => values
  | .write slot value, values => values.set slot value
  | .increment slot modulus, values =>
    values.set slot (nextResidue (valueAt values slot) modulus)
  | .copy source target, values => values.set target (valueAt values source)
  | .nested body, values => Instruction.effectOfAll body values

/-- The values after instructions, one after the other. -/
def Instruction.effectOfAll : List Instruction → List Int64 → List Int64
  | [], values => values
  | instruction :: instructions, values =>
    Instruction.effectOfAll instructions (instruction.effect values)

end

/-- What the explorer is told while an event runs: what is accessed, if anything is, and under which
decision point. -/
structure Observation where
  /-- The active decision point. -/
  active : ActivePoint
  /-- The access; none when a secondary decision begins. -/
  access : Option Access
deriving DecidableEq, Repr, Inhabited

/-- An access to a variable. -/
def Variable.access (shared : Variable) (kind : AccessKind) : Access :=
  ⟨kind, shared.name, shared.owner⟩

/-- The observed access to the variable at a position; none when there is no such variable. -/
def observed (declarations : List Variable) (active : ActivePoint) (kind : AccessKind)
    (slot : Nat) : List Observation :=
  match declarations[slot]? with
  | some shared => [⟨active, some (shared.access kind)⟩]
  | none => []

/-- The decision point that is active after an instruction. When a secondary decision is left, the
event's own point is the active one again, even inside another secondary decision. -/
def Instruction.activeAfter (point : PointId) (active : ActivePoint) : Instruction → ActivePoint
  | .nested _ => .event point
  | .read _ | .write _ _ | .increment _ _ | .copy _ _ => active

mutual

/-- What is observed while an instruction runs inside the event chosen at a point. A secondary
decision is announced, and its accesses are observed under it. -/
def Instruction.observations (declarations : List Variable) (point : PointId)
    (active : ActivePoint) : Instruction → List Observation
  | .read slot => observed declarations active .read slot
  | .write slot _ => observed declarations active .write slot
  | .increment slot _ =>
    observed declarations active .read slot ++ observed declarations active .write slot
  | .copy source target =>
    observed declarations active .read source ++ observed declarations active .write target
  | .nested body =>
    ⟨.nested point, none⟩ :: Instruction.observationsOfAll declarations point (.nested point) body

/-- What is observed while instructions run, one after the other. -/
def Instruction.observationsOfAll (declarations : List Variable) (point : PointId)
    (active : ActivePoint) : List Instruction → List Observation
  | [] => []
  | instruction :: instructions =>
    instruction.observations declarations point active ++
      Instruction.observationsOfAll declarations point (instruction.activeAfter point active)
        instructions

end

end EventOrder
