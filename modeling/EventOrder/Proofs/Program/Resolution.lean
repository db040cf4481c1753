import EventOrder.Proofs.Machine.Checked
import EventOrder.Proofs.Program.Dependence
import EventOrder.Proofs.Program.Violations

/-!
# Resolving variables loses nothing

Resolving an operation passes it over when it names a variable that is not declared. In a
well-formed program this does not happen: naming the variables at the positions that the
instructions hold gives back the operations, at every depth and in order. Their positions are in
range and their moduli positive, so they run without a fault.
-/

namespace EventOrder

mutual

/-- The operation that an instruction came from: its variables named again. -/
def Instruction.source? (declarations : List Variable) : Instruction → Option Operation
  | .read slot => do return .read (← declarations[slot]?).name
  | .write slot value => do return .write (← declarations[slot]?).name value
  | .increment slot modulus => do return .increment (← declarations[slot]?).name modulus
  | .copy source target => do
    return .copy (← declarations[source]?).name (← declarations[target]?).name
  | .nested body => do return .nested (← Instruction.sourceAll? declarations body)

/-- The operations that instructions came from, one by one. -/
def Instruction.sourceAll? (declarations : List Variable) :
    List Instruction → Option (List Operation)
  | [] => some []
  | instruction :: instructions => do
    let operation ← instruction.source? declarations
    return operation :: (← Instruction.sourceAll? declarations instructions)

end

mutual

/-- The increments of an instruction, at any depth: the position and the modulus of each. -/
def Instruction.increments : Instruction → List (Nat × Int64)
  | .increment slot modulus => [(slot, modulus)]
  | .nested body => Instruction.incrementsOfAll body
  | .read _ | .write _ _ | .copy _ _ => []

/-- The increments of instructions, in order. -/
def Instruction.incrementsOfAll : List Instruction → List (Nat × Int64)
  | [] => []
  | instruction :: instructions =>
    instruction.increments ++ Instruction.incrementsOfAll instructions

end

variable {program : Program}

/-- A declared variable is at the position of its name. -/
private theorem exists_position {name : String} (h : name ∈ program.declared) :
    ∃ slot shared, program.variableIndex? name = some slot ∧
      slot < program.declarations.length ∧ program.declarations[slot]? = some shared ∧
        shared.name = name := by
  obtain ⟨slot, hslot⟩ := Option.isSome_iff_exists.mp (variableIndex?_of_mem_declared h)
  obtain ⟨hbound, hname, -⟩ := List.findIdx?_eq_some_iff_getElem.mp hslot
  exact ⟨slot, _, hslot, hbound, List.getElem?_eq_getElem hbound, beq_iff_eq.mp hname⟩

mutual

/-- An operation without a violation is resolved to a sound instruction that came from it. -/
private theorem Operation.exists_resolve? {event : String} (operation : Operation)
    (h : operation.violation? program.declared event = none) :
    ∃ instruction, operation.resolve? program.variableIndex? = some instruction ∧
      instruction.source? program.declarations = some operation ∧
        instruction.Sound program.declarations.length := by
  have hposition {names : List String} (hnone : undeclared? program.declared event names = none)
      (name : String) (hname : name ∈ names) :
      ∃ slot shared, program.variableIndex? name = some slot ∧
        slot < program.declarations.length ∧ program.declarations[slot]? = some shared ∧
          shared.name = name := by
    have hdeclared : ∀ name ∈ names, name ∈ program.declared := by
      simpa [undeclared?] using hnone
    exact exists_position (hdeclared name hname)
  cases operation with
  | read name =>
    obtain ⟨slot, shared, hslot, hbound, hshared, rfl⟩ := hposition h name (by simp)
    exact ⟨.read slot, by simp [resolve?, hslot], by simp [Instruction.source?, hshared], hbound⟩
  | write name value =>
    obtain ⟨slot, shared, hslot, hbound, hshared, rfl⟩ := hposition h name (by simp)
    exact ⟨.write slot value, by simp [resolve?, hslot], by simp [Instruction.source?, hshared],
      hbound⟩
  | increment name modulus =>
    simp only [violation?] at h
    split at h
    · exact absurd h (by simp)
    · rename_i hmodulus
      obtain ⟨slot, shared, hslot, hbound, hshared, rfl⟩ := hposition h name (by simp)
      exact ⟨.increment slot modulus, by simp [resolve?, hslot],
        by simp [Instruction.source?, hshared], hbound, Int64.not_le.mp hmodulus⟩
  | copy source target =>
    obtain ⟨first, origin, hfirst, hfirstBound, horigin, rfl⟩ := hposition h source (by simp)
    obtain ⟨second, aim, hsecond, hsecondBound, haim, rfl⟩ := hposition h target (by simp)
    exact ⟨.copy first second, by simp [resolve?, hfirst, hsecond],
      by simp [Instruction.source?, horigin, haim], hfirstBound, hsecondBound⟩
  | nested body =>
    obtain ⟨hsource, hsound⟩ := Operation.resolveAll_keeps body h
    exact ⟨_, rfl, by simp [Instruction.source?, hsource], hsound⟩

/-- Operations without a violation are resolved to sound instructions that came from them. -/
theorem Operation.resolveAll_keeps {event : String} (operations : List Operation)
    (h : Operation.firstViolation? program.declared event operations = none) :
    Instruction.sourceAll? program.declarations
        (Operation.resolveAll program.variableIndex? operations) = some operations ∧
      Instruction.SoundAll program.declarations.length
        (Operation.resolveAll program.variableIndex? operations) := by
  cases operations with
  | nil => exact ⟨rfl, trivial⟩
  | cons operation operations =>
    simp only [firstViolation?] at h
    split at h
    · exact absurd h (by simp)
    · rename_i hfirst
      obtain ⟨instruction, hinstruction, hsource, hsound⟩ :=
        Operation.exists_resolve? operation hfirst
      obtain ⟨hsources, hrest⟩ := Operation.resolveAll_keeps operations h
      simp only [resolveAll, hinstruction]
      exact ⟨by simp [Instruction.sourceAll?, hsource, hsources], hsound, hrest⟩

end

mutual

/-- The increments of a sound instruction are in range and have positive moduli. -/
private theorem Instruction.Sound.of_increments {count : Nat} (instruction : Instruction)
    (hsound : instruction.Sound count) :
    ∀ increment ∈ instruction.increments, increment.1 < count ∧ 0 < increment.2 := by
  cases instruction with
  | increment slot modulus =>
    intro increment hincrement
    obtain rfl := List.mem_singleton.mp hincrement
    exact hsound
  | nested body => exact Instruction.SoundAll.of_increments body hsound
  | read | write | copy => simp [increments]

/-- The increments of sound instructions are in range and have positive moduli. -/
theorem Instruction.SoundAll.of_increments {count : Nat} (instructions : List Instruction)
    (hsound : Instruction.SoundAll count instructions) :
    ∀ increment ∈ Instruction.incrementsOfAll instructions,
      increment.1 < count ∧ 0 < increment.2 := by
  cases instructions with
  | nil => simp [incrementsOfAll]
  | cons instruction instructions =>
    intro increment hincrement
    rcases List.mem_append.mp hincrement with hhere | hrest
    · exact Instruction.Sound.of_increments instruction hsound.1 increment hhere
    · exact Instruction.SoundAll.of_increments instructions hsound.2 increment hrest

end

namespace Program

/-- The variables of a well-formed program have different names. -/
theorem nodup_names (h : program.violation? = none) :
    (program.declarations.map (·.name)).Nodup := by
  unfold violation? at h
  split at h
  · exact absurd h (by simp)
  · rename_i hnames
    rw [firstRepeated?_eq_head?, List.head?_eq_none_iff] at hnames
    refine nodup_iff_forall_not_repeatedIn.mpr fun name hrepeated => ?_
    simpa [hnames] using mem_repetitions.mpr hrepeated

/-- What the events of a well-formed program do came from their operations. -/
theorem source_bodies (h : program.violation? = none) :
    program.code.bodies.map (Instruction.sourceAll? program.declarations) =
      program.events.map fun event => some event.operations := by
  rw [code, List.map_map]
  refine List.map_congr_left fun event hevent => ?_
  exact (Operation.resolveAll_keeps event.operations
    (firstViolation?_of_violation?_eq_none h hevent)).1

/-- What an event of a well-formed program does is sound. -/
theorem sound_body (h : program.violation? = none) (event : Event) :
    Instruction.SoundAll program.declarations.length (program.code.body event) := by
  rw [body_code]
  cases hevent : program.events[event.number]? with
  | none => simp [operations, hevent, Operation.resolveAll, Instruction.SoundAll]
  | some body =>
    simp only [operations, hevent, Option.map_some, Option.getD_some]
    have hbody := firstViolation?_of_violation?_eq_none h (List.mem_of_getElem? hevent)
    exact (Operation.resolveAll_keeps body.operations hbody).2

end Program

end EventOrder
