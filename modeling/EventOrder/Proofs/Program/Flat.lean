import EventOrder.Proofs.Machine.Reachable
import EventOrder.Program.Check

/-!
# Programs without secondary decisions

A secondary decision can be replaced by the operations inside it. A program that is freed of all its
secondary decisions this way is well formed just when it was before, and each of its events has the
same effect and the same accesses in the same order. Only the decision points differ that the
accesses are observed under.
-/

namespace EventOrder

mutual

/-- The operations that stand for an operation without secondary decisions. -/
def Operation.flattened : Operation → List Operation
  | .read name => [.read name]
  | .write name value => [.write name value]
  | .increment name modulus => [.increment name modulus]
  | .copy source target => [.copy source target]
  | .nested body => Operation.flattenedAll body

/-- Operations with the contents of every secondary decision, at any depth, in its place. -/
def Operation.flattenedAll : List Operation → List Operation
  | [] => []
  | operation :: operations => operation.flattened ++ Operation.flattenedAll operations

end

namespace Operation

/-- Whether an operation is no secondary decision. -/
def isPlain : Operation → Bool
  | .nested _ => false
  | .read _ | .write _ _ | .increment _ _ | .copy _ _ => true

/-- A relation of operations to operations that appending keeps and that does not tell a secondary
decision from its contents. -/
structure SeesThrough (related : List Operation → List Operation → Prop) : Prop where
  /-- No operations are related to themselves. -/
  nil : related [] []
  /-- A plain operation is related to itself. -/
  plain : ∀ operation, operation.isPlain = true → related [operation] [operation]
  /-- Appending keeps the relation. -/
  append : ∀ flat nesting others nestings, related flat nesting → related others nestings →
    related (flat ++ others) (nesting ++ nestings)
  /-- What is related to the contents is related to the secondary decision. -/
  nested : ∀ flat body, related flat body → related flat [.nested body]

mutual

/-- Such a relation holds between an operation and what stands for it. -/
private theorem SeesThrough.flattened {related : List Operation → List Operation → Prop}
    (h : SeesThrough related) (operation : Operation) :
    related operation.flattened [operation] := by
  cases operation with
  | read | write | increment | copy => exact h.plain _ rfl
  | nested body => exact h.nested _ _ (h.flattenedAll body)

/-- It holds between operations and what stands for them. -/
theorem SeesThrough.flattenedAll {related : List Operation → List Operation → Prop}
    (h : SeesThrough related) (operations : List Operation) :
    related (flattenedAll operations) operations := by
  cases operations with
  | nil => exact h.nil
  | cons operation operations =>
    exact h.append _ _ _ _ (h.flattened operation) (h.flattenedAll operations)

end

/-- No secondary decision is left. -/
theorem isPlain_of_mem_flattenedAll (operations : List Operation) :
    ∀ operation ∈ flattenedAll operations, operation.isPlain = true := by
  have hsees : SeesThrough fun flat _ => ∀ operation ∈ flat, operation.isPlain = true := by
    refine ⟨by simp, by simp, ?_, fun _ _ hflat => hflat⟩
    intro flat nesting others nestings hflat hothers operation hmem
    exact (List.mem_append.mp hmem).elim (hflat operation) (hothers operation)
  exact hsees.flattenedAll operations

/-- Operations after others are checked when there is no violation among the others. -/
theorem firstViolation?_append (declared : Std.ExtTreeSet String) (event : String)
    (operations others : List Operation) :
    firstViolation? declared event (operations ++ others) =
      (firstViolation? declared event operations).or (firstViolation? declared event others) := by
  induction operations with
  | nil => rfl
  | cons operation operations ih =>
    simp only [List.cons_append, firstViolation?, ih]
    cases operation.violation? declared event <;> rfl

/-- The first violation stays the first. -/
theorem firstViolation?_flattenedAll (declared : Std.ExtTreeSet String) (event : String)
    (operations : List Operation) :
    firstViolation? declared event (flattenedAll operations) =
      firstViolation? declared event operations := by
  have hsees : SeesThrough fun flat nesting =>
      firstViolation? declared event flat = firstViolation? declared event nesting := by
    refine ⟨rfl, fun _ _ => rfl, ?_, ?_⟩
    · intro flat nesting others nestings hflat hothers
      rw [firstViolation?_append, firstViolation?_append, hflat, hothers]
    · intro flat body hbody
      simp only [firstViolation?, violation?, hbody]
      cases firstViolation? declared event body <;> rfl
  exact hsees.flattenedAll operations

/-- Operations after others are resolved after them. -/
theorem resolveAll_append (position? : String → Option Nat) (operations others : List Operation) :
    resolveAll position? (operations ++ others) =
      resolveAll position? operations ++ resolveAll position? others := by
  induction operations with
  | nil => rfl
  | cons operation operations ih =>
    simp only [List.cons_append, resolveAll, ih]
    cases operation.resolve? position? <;> rfl

end Operation

namespace Instruction

/-- Instructions after others take effect on what these leave. -/
theorem effectOfAll_append (instructions others : List Instruction) (values : List Int64) :
    effectOfAll (instructions ++ others) values =
      effectOfAll others (effectOfAll instructions values) := by
  induction instructions generalizing values with
  | nil => rfl
  | cons instruction instructions ih => simp only [List.cons_append, effectOfAll, ih]

/-- The accesses of instructions, in the order observed. -/
def accessesOfAll (declarations : List Variable) (point : PointId) (active : ActivePoint)
    (instructions : List Instruction) : List Access :=
  (observationsOfAll declarations point active instructions).filterMap (·.access)

variable {declarations : List Variable} {point : PointId}

/-- A variable is accessed the same under any decision point. -/
private theorem filterMap_observed (active other : ActivePoint) (kind : AccessKind) (slot : Nat) :
    (observed declarations active kind slot).filterMap (·.access) =
      (observed declarations other kind slot).filterMap (·.access) := by
  unfold observed
  cases declarations[slot]? <;> rfl

/-- The accesses of instructions do not depend on the decision point that is active at first. -/
theorem accessesOfAll_active (active other : ActivePoint) (instructions : List Instruction) :
    accessesOfAll declarations point active instructions =
      accessesOfAll declarations point other instructions := by
  unfold accessesOfAll
  induction instructions generalizing active other with
  | nil => rfl
  | cons instruction instructions ih =>
    simp only [observationsOfAll, List.filterMap_append]
    rw [ih (instruction.activeAfter point active) (instruction.activeAfter point other)]
    congr 1
    cases instruction with
    | read | write => exact filterMap_observed active other _ _
    | increment | copy =>
      simp only [observations, List.filterMap_append]
      rw [filterMap_observed active other, filterMap_observed active other]
    | nested body => rfl

/-- The accesses of instructions after others come after theirs. -/
theorem accessesOfAll_append (active : ActivePoint) (instructions others : List Instruction) :
    accessesOfAll declarations point active (instructions ++ others) =
      accessesOfAll declarations point active instructions ++
        accessesOfAll declarations point active others := by
  induction instructions generalizing active with
  | nil => rfl
  | cons instruction instructions ih =>
    have hrest := ih (instruction.activeAfter point active)
    rw [accessesOfAll_active _ active others] at hrest
    simp only [accessesOfAll, List.cons_append, observationsOfAll, List.filterMap_append,
      List.append_assoc] at hrest ⊢
    rw [hrest]

/-- The accesses of a secondary decision are those of its contents. -/
theorem accessesOfAll_nested (active : ActivePoint) (body : List Instruction) :
    accessesOfAll declarations point active [.nested body] =
      accessesOfAll declarations point active body := by
  rw [accessesOfAll_active active (.nested point) body]
  simp [accessesOfAll, observationsOfAll, observations]

end Instruction

/-- Two codes do the same: they have the same variables and as many events, and each event has the
same effect and the same accesses in both. -/
structure Code.Mimics (code other : Code) : Prop where
  /-- The variables are the same. -/
  declarations : code.declarations = other.declarations
  /-- There are as many events. -/
  count : code.bodies.length = other.bodies.length
  /-- Each event leads to the same values. -/
  next : ∀ event values, code.next event values = other.next event values
  /-- Each event has the same accesses. -/
  accesses : ∀ event point active,
    Instruction.accessesOfAll code.declarations point active (code.body event) =
      Instruction.accessesOfAll other.declarations point active (other.body event)

/-- An event without its secondary decisions. -/
def EventBody.flat (event : EventBody) : EventBody :=
  { event with operations := Operation.flattenedAll event.operations }

namespace Program

/-- A program without its secondary decisions: the contents of each stand in its place. -/
def flat (program : Program) : Program :=
  { program with events := program.events.map EventBody.flat }

/-- No event of the program has a secondary decision any more. -/
theorem isPlain_of_mem_flat (program : Program) :
    ∀ event ∈ program.flat.events, ∀ operation ∈ event.operations, operation.isPlain = true := by
  intro event hevent
  obtain ⟨nesting, -, rfl⟩ := List.mem_map.mp hevent
  exact Operation.isPlain_of_mem_flattenedAll nesting.operations

/-- The first violation of a program stays the first. -/
theorem violation?_flat (program : Program) : program.flat.violation? = program.violation? := by
  have hevents (declared seen : Std.ExtTreeSet String) (events : List EventBody) :
      EventBody.firstViolation? declared seen (events.map EventBody.flat) =
        EventBody.firstViolation? declared seen events := by
    induction events generalizing seen with
    | nil => rfl
    | cons event events ih =>
      simp only [List.map_cons, EventBody.firstViolation?, EventBody.flat,
        Operation.firstViolation?_flattenedAll, ih]
  simp only [violation?, flat, hevents]
  rfl

/-- What an event does is what the operations that stand for its own ones do. -/
private theorem body_code_flat (program : Program) (event : Event) :
    ∃ operations,
      program.code.body event = Operation.resolveAll program.variableIndex? operations ∧
        program.flat.code.body event =
          Operation.resolveAll program.variableIndex? (Operation.flattenedAll operations) := by
  simp only [Code.body, code, flat, List.getElem?_map]
  cases program.events[event.number]? with
  | none => exact ⟨[], rfl, rfl⟩
  | some body => exact ⟨body.operations, rfl, rfl⟩

/-- Operations have the same effect without secondary decisions. -/
private theorem effectOfAll_flattenedAll (position? : String → Option Nat)
    (operations : List Operation) (values : List Int64) :
    Instruction.effectOfAll
        (Operation.resolveAll position? (Operation.flattenedAll operations)) values =
      Instruction.effectOfAll (Operation.resolveAll position? operations) values := by
  have hsees : Operation.SeesThrough fun flat nesting => ∀ values,
      Instruction.effectOfAll (Operation.resolveAll position? flat) values =
        Instruction.effectOfAll (Operation.resolveAll position? nesting) values := by
    refine ⟨fun _ => rfl, fun _ _ _ => rfl, ?_, fun _ _ hbody => hbody⟩
    intro flat nesting others nestings hflat hothers values
    simp only [Operation.resolveAll_append, Instruction.effectOfAll_append, hflat, hothers]
  exact hsees.flattenedAll operations values

/-- Operations have the same accesses without secondary decisions. -/
private theorem accessesOfAll_flattenedAll (declarations : List Variable)
    (position? : String → Option Nat) (operations : List Operation) (point : PointId)
    (active : ActivePoint) :
    Instruction.accessesOfAll declarations point active
        (Operation.resolveAll position? (Operation.flattenedAll operations)) =
      Instruction.accessesOfAll declarations point active
        (Operation.resolveAll position? operations) := by
  have hsees : Operation.SeesThrough fun flat nesting =>
      Instruction.accessesOfAll declarations point active
          (Operation.resolveAll position? flat) =
        Instruction.accessesOfAll declarations point active
          (Operation.resolveAll position? nesting) := by
    refine ⟨rfl, fun _ _ => rfl, ?_, fun flat body hbody => ?_⟩
    · intro flat nesting others nestings hflat hothers
      rw [Operation.resolveAll_append, Operation.resolveAll_append,
        Instruction.accessesOfAll_append, Instruction.accessesOfAll_append, hflat, hothers]
    · exact hbody.trans (Instruction.accessesOfAll_nested active _).symm
  exact hsees.flattenedAll operations

/-- The events of a program do the same without secondary decisions. -/
theorem mimics_flat (program : Program) : program.code.Mimics program.flat.code := by
  refine ⟨rfl, by simp [code, flat], fun event values => ?_, fun event point active => ?_⟩
  · obtain ⟨operations, hbody, hflat⟩ := program.body_code_flat event
    simp only [Code.next, hbody, hflat, effectOfAll_flattenedAll]
  · obtain ⟨operations, hbody, hflat⟩ := program.body_code_flat event
    rw [hbody, hflat]
    exact (accessesOfAll_flattenedAll _ _ operations point active).symm

end Program

end EventOrder
