import EventOrder.Json.Tree
import EventOrder.Program.Basic

/-!
# Reading operations

An operation is an object whose field `kind` says which operation it is, or a list that starts
with the kind and goes on with the fields in order. The fields may come before the kind, so the
operation is first taken in as a tree and then read from it. An operation inside another one's
body is read from the tree of the outer one.
-/

namespace EventOrder

open Json

/-- The kinds of operations. -/
inductive OperationKind where
  | read
  | write
  | increment
  | copy
  | nested
deriving DecidableEq, Repr, Inhabited

namespace OperationKind

/-- Every kind, in the order of their numbers. -/
def all : List OperationKind := [.read, .write, .increment, .copy, .nested]

/-- The name of a kind. -/
def name : OperationKind → String
  | .read => "Read"
  | .write => "Write"
  | .increment => "Increment"
  | .copy => "Copy"
  | .nested => "Nested"

/-- What is said to be expected where a kind is. -/
def expected : String := "variant identifier"

/-- The kind of that name. -/
def ofName (name : String) : Except ShapeFault OperationKind :=
  match all.find? (·.name == name) with
  | some kind => .ok kind
  | none => .error (.unknownVariant name (all.map OperationKind.name))

/-- The kind given in a tree, by its name or its number. -/
def ofTree : Tree → Except ShapeFault OperationKind
  | .text name => ofName name
  | .number (.whole (.ofNat index)) =>
    match all[index]? with
    | some kind => .ok kind
    | none =>
      .error (.wrongValue (.number (.whole index))
        ("variant index 0 <= i < " ++ toString all.length))
  | tree => .error (.wrongKind tree.found expected)

end OperationKind

/-- The fields of an operation that were read so far. -/
structure OperationDraft where
  name : Option String := none
  value : Option Int64 := none
  modulus : Option Int64 := none
  source : Option String := none
  target : Option String := none
  body : Option (List Operation) := none

/-- A field of an operation. -/
structure OperationField where
  /-- The field's name. -/
  name : String
  /-- Whether the draft has the field already. -/
  isFilled : OperationDraft → Bool
  /-- Takes the field into the draft. -/
  take : OperationDraft → Tree → Except ShapeFault OperationDraft

/-- A text in a tree. -/
def Json.Tree.asText : Tree → Except ShapeFault String
  | .text value => .ok value
  | tree => .error (.wrongKind tree.found "a string")

/-- A signed 64-bit number in a tree. -/
def Json.Tree.asSigned : Tree → Except ShapeFault Int64
  | .number value => Reader.asSigned value
  | tree => .error (.wrongKind tree.found "i64")

/-- A list in a tree. -/
def Json.Tree.asList : Tree → Except ShapeFault (List Tree)
  | .list items => .ok items
  | tree => .error (.wrongKind tree.found "a sequence")

/-- A field that has to be given. -/
def required {α : Type} (name : String) : Option α → Except ShapeFault α
  | some value => .ok value
  | none => .error (.missingField name)

namespace OperationDraft

/-- The fields of operations of one kind, in the order of their declaration; `readBody` reads the
operations inside one. -/
def fields (readBody : List Tree → Except ShapeFault (List Operation)) :
    OperationKind → List OperationField
  | .read => [name]
  | .write => [name, value]
  | .increment => [name, modulus]
  | .copy => [source, target]
  | .nested => [body]
where
  /-- The variable that is read or written. -/
  name : OperationField :=
    ⟨"var", (·.name.isSome), fun draft tree => do return { draft with name := ← tree.asText }⟩
  /-- The value that is written. -/
  value : OperationField :=
    ⟨"value", (·.value.isSome), fun draft tree => do return { draft with value := ← tree.asSigned }⟩
  /-- The modulus of an increment. -/
  modulus : OperationField :=
    ⟨"modulus", (·.modulus.isSome),
      fun draft tree => do return { draft with modulus := ← tree.asSigned }⟩
  /-- The variable that is copied. -/
  source : OperationField :=
    ⟨"from", (·.source.isSome), fun draft tree => do return { draft with source := ← tree.asText }⟩
  /-- The variable that is copied to. -/
  target : OperationField :=
    ⟨"to", (·.target.isSome), fun draft tree => do return { draft with target := ← tree.asText }⟩
  /-- The operations inside. -/
  body : OperationField :=
    ⟨"ops", (·.body.isSome),
      fun draft tree => do return { draft with body := ← readBody (← tree.asList) }⟩

/-- The operation that a draft makes; the first field that is missing is reported. -/
def finish (draft : OperationDraft) : OperationKind → Except ShapeFault Operation
  | .read => do return .read (← required "var" draft.name)
  | .write => do return .write (← required "var" draft.name) (← required "value" draft.value)
  | .increment => do
    return .increment (← required "var" draft.name) (← required "modulus" draft.modulus)
  | .copy => do return .copy (← required "from" draft.source) (← required "to" draft.target)
  | .nested => do return .nested (← required "ops" draft.body)

/-- Counts elements in a message. -/
def counted (count : Nat) : String :=
  toString count ++ if count = 1 then " element" else " elements"

/-- Takes the fields of an operation from an object, in the order in which they are given; fields
that the operation does not have are ignored. -/
def takeNamed (fields : List OperationField) :
    OperationDraft → List (String × Tree) → Except ShapeFault OperationDraft
  | draft, [] => .ok draft
  | draft, (key, tree) :: rest =>
    match fields.find? (·.name == key) with
    | none => takeNamed fields draft rest
    | some field =>
      if field.isFilled draft then .error (.duplicateField key)
      else do takeNamed fields (← field.take draft tree) rest

/-- Takes the fields of an operation from a list, in the order of their declaration. -/
def takeListed (kind : OperationKind) (total : Nat) :
    List OperationField → OperationDraft → List Tree → Except ShapeFault OperationDraft
  | [], draft, [] => .ok draft
  | [], _, rest@(_ :: _) =>
    .error (.wrongLength (total + rest.length) (counted total ++ " in sequence"))
  | fields@(_ :: _), _, [] =>
    .error (.wrongLength (total - fields.length)
      ("struct variant Op::" ++ kind.name ++ " with " ++ counted total))
  | field :: fields, draft, tree :: rest => do
    takeListed kind total fields (← field.take draft tree) rest

end OperationDraft

/-- An operation as it is written: its kind and the other fields. -/
inductive WrittenOperation where
  /-- As an object; the fields are those besides the kind. -/
  | named (kind : OperationKind) (fields : List (String × Tree))
  /-- As a list; the fields are those after the kind. -/
  | listed (kind : OperationKind) (fields : List Tree)

namespace WrittenOperation

/-- The name of the field that holds the kind. -/
def kindField : String := "kind"

/-- What is said to be expected where an operation is. -/
def expected : String := "internally tagged enum Op"

/-- Takes the kind out of the fields of an object. The other fields seen so far come in reverse. -/
def ofFields : Option OperationKind → List (String × Tree) → List (String × Tree) →
    Except ShapeFault WrittenOperation
  | none, _, [] => .error (.missingField kindField)
  | some kind, others, [] => .ok (.named kind others.reverse)
  | kind?, others, (key, tree) :: rest =>
    if key = kindField then
      if kind?.isSome then .error (.duplicateField kindField)
      else do ofFields (some (← OperationKind.ofTree tree)) others rest
    else ofFields kind? ((key, tree) :: others) rest

/-- The operation written in a tree. -/
def ofTree : Tree → Except ShapeFault WrittenOperation
  | .object fields => ofFields none [] fields
  | .list [] => .error (.missingField kindField)
  | .list (kind :: fields) => do return .listed (← OperationKind.ofTree kind) fields
  | tree => .error (.wrongKind tree.found expected)

/-- The operation itself, given how the operations inside are read. -/
def operation (readBody : List Tree → Except ShapeFault (List Operation)) :
    WrittenOperation → Except ShapeFault Operation
  | .named kind fields => do
    (← OperationDraft.takeNamed (OperationDraft.fields readBody kind) {} fields).finish kind
  | .listed kind fields => do
    let declared := OperationDraft.fields readBody kind
    (← OperationDraft.takeListed kind declared.length declared {} fields).finish kind

end WrittenOperation

/-- Reads the operations in trees in which operations are nested less deep than given. -/
def Operation.ofTrees : Nat → List Tree → Except ShapeFault (List Operation)
  | 0, _ => .error (.missingField WrittenOperation.kindField)
  | depth + 1, trees => trees.mapM fun tree => do
    (← WrittenOperation.ofTree tree).operation (Operation.ofTrees depth)

namespace WrittenOperation

open Json.Reader

/-- Reads the fields of an operation from inside an object, of which there must be fewer than
given. The kind is read as soon as it comes; the other fields seen so far come in reverse. -/
def readFields (most depth : Nat) : Nat → Bool → Option OperationKind → List (String × Tree) →
    Reader WrittenOperation
  | 0, _, _, _ => fail .endInObject
  | steps + 1, first, kind?, others => do
    match ← nextKey first with
    | none =>
      match kind? with
      | some kind => pure (.named kind others.reverse)
      | none => refuse (.missingField kindField)
    | some key =>
      if key = kindField then
        if kind?.isSome then refuse (.duplicateField kindField)
        else
          colon
          let kind ← readKind
          readFields most depth steps false (some kind) others
      else
        colon
        let tree ← tree most depth
        readFields most depth steps false kind? ((key, tree) :: others)
where
  /-- Reads a kind by its name. -/
  readKind : Reader OperationKind :=
    placed do ofExcept (OperationKind.ofName (← text OperationKind.expected))

/-- Reads the items of an operation from inside a list. -/
def readItems (most depth : Nat) : Reader WrittenOperation := do
  if ← hasElement true then
    let kind ← readFields.readKind
    let items ← elements (tree most depth) most false []
    return .listed kind items
  else refuse (.missingField kindField)

/-- Reads an operation as it is written. -/
def read (most depth : Nat) : Reader WrittenOperation :=
  byFirst fun c =>
    if c = '\x7b' then
      entered depth closeObject fun depth => readFields most depth most true none []
    else if c = '[' then entered depth closeList fun depth => readItems most depth
    else mismatched expected

end WrittenOperation

/-- Reads an operation. Where its fields have the wrong shape, the fault is placed by the list
that the operation is in. -/
def Operation.reader (most depth : Nat) : Reader Operation := do
  Reader.ofExcept
    ((← WrittenOperation.read most depth).operation (Operation.ofTrees Json.Reader.deepest))

end EventOrder
