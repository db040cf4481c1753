import EventOrder.Json.Record
import EventOrder.Program.Check
import EventOrder.Program.OperationReader

/-!
# Reading programs

A program is read from a JSON document and then checked to be well formed.
-/

namespace EventOrder

open Json Json.Reader

/-- The fields of a variable that were read so far. -/
structure VariableDraft where
  name : Option String := none
  owner : Option Nat := none
  initial : Option Int64 := none

/-- How a variable is read: the owner and the initial value are zero unless given. -/
def Variable.shape : RecordShape VariableDraft Variable where
  label := "Variable"
  draft := {}
  fields := [
    ⟨"name", false, (·.name.isSome), fun _ draft => do
      return { draft with name := some (← text "a string") }⟩,
    ⟨"owner", true, (·.owner.isSome), fun _ draft => do
      return { draft with owner := some (← unsigned) }⟩,
    ⟨"initial", true, (·.initial.isSome), fun _ draft => do
      return { draft with initial := some (← signed) }⟩]
  finish draft := do
    return ⟨← required "name" draft.name, ⟨draft.owner.getD 0⟩, draft.initial.getD 0⟩

/-- The fields of an event that were read so far. -/
structure EventDraft where
  name : Option String := none
  operations : Option (List Operation) := none

/-- How an event is read from a text of at most so many characters. -/
def EventBody.shape (most : Nat) : RecordShape EventDraft EventBody where
  label := "EventDef"
  draft := {}
  fields := [
    ⟨"name", false, (·.name.isSome), fun _ draft => do
      return { draft with name := some (← text "a string") }⟩,
    ⟨"ops", false, (·.operations.isSome), fun depth draft => do
      return { draft with operations := some (← list most depth (Operation.reader most)) }⟩]
  finish draft := do
    return ⟨← required "name" draft.name, ← required "ops" draft.operations⟩

/-- The pattern lists that were read so far. -/
structure PatternDraft where
  startsWith : Option (List String) := none
  endsWith : Option (List String) := none
  contains : Option (List String) := none
  writeStartsWith : Option (List String) := none

/-- How the patterns of a filter are read: a list that is not given is empty. -/
def PatternLists.shape (most : Nat) : RecordShape PatternDraft PatternLists where
  label := "FilterPatterns"
  draft := {}
  fields := [
    ⟨"starts_with", true, (·.startsWith.isSome), fun depth draft => do
      return { draft with startsWith := some (← list most depth fun _ => text "a string") }⟩,
    ⟨"ends_with", true, (·.endsWith.isSome), fun depth draft => do
      return { draft with endsWith := some (← list most depth fun _ => text "a string") }⟩,
    ⟨"contains", true, (·.contains.isSome), fun depth draft => do
      return { draft with contains := some (← list most depth fun _ => text "a string") }⟩,
    ⟨"write_starts_with", true, (·.writeStartsWith.isSome), fun depth draft => do
      return { draft with writeStartsWith := some (← list most depth fun _ => text "a string") }⟩]
  finish draft :=
    .ok ⟨draft.startsWith.getD [], draft.endsWith.getD [], draft.contains.getD [],
      draft.writeStartsWith.getD []⟩

/-- The fields of a program that were read so far. -/
structure ProgramDraft where
  name : Option String := none
  declarations : Option (List Variable) := none
  events : Option (List EventBody) := none
  filter : Option PatternLists := none

/-- How a program is read: without a filter every field is tracked. -/
def Program.shape (most : Nat) : RecordShape ProgramDraft Program where
  label := "Program"
  draft := {}
  fields := [
    ⟨"name", false, (·.name.isSome), fun _ draft => do
      return { draft with name := some (← text "a string") }⟩,
    ⟨"variables", false, (·.declarations.isSome), fun depth draft => do
      return { draft with
        declarations := some (← list most depth fun depth => record most depth Variable.shape) }⟩,
    ⟨"events", false, (·.events.isSome), fun depth draft => do
      return { draft with
        events := some (← list most depth fun depth => record most depth (EventBody.shape most)) }⟩,
    ⟨"filter", true, (·.filter.isSome), fun depth draft => do
      return { draft with filter := some (← record most depth (PatternLists.shape most)) }⟩]
  finish draft := do
    return ⟨← required "name" draft.name, ← required "variables" draft.declarations,
      ← required "events" draft.events, draft.filter.getD .empty⟩

/-- Why a program cannot be loaded. -/
inductive LoadError where
  /-- The text is no JSON document of the right shape. -/
  | unreadable (fault : Fault)
  /-- The program is not well formed. -/
  | illFormed (violation : Violation)
deriving DecidableEq, Repr, Inhabited

/-- The wording of a load error. -/
def LoadError.message : LoadError → String
  | .unreadable fault => fault.message
  | .illFormed violation => violation.message

namespace Program

/-- Reads a program that need not be well formed. -/
def read (source : String) : Except Fault Program :=
  readAll (fun most depth => record most depth (shape most)) source

/-- Reads a program and checks it. -/
def load (source : String) : Except LoadError Program :=
  match read source with
  | .error fault => .error (.unreadable fault)
  | .ok program =>
    match program.violation? with
    | some violation => .error (.illFormed violation)
    | none => .ok program

end Program

end EventOrder
