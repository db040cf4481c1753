import EventOrder.Json.Ignored

/-!
# Records

A record is given as an object, whose fields may come in any order, or as a list of its fields in
the order of their declaration, of which optional ones at the end may be left out. Fields of an
object that the record does not have are ignored; a field given twice is refused.
-/

namespace EventOrder.Json

/-- A field of a record that is being read into a draft of type `δ`. -/
structure Field (δ : Type) where
  /-- The field's name. -/
  name : String
  /-- Whether a list may end before the field. -/
  optional : Bool
  /-- Whether the draft has the field already. -/
  isFilled : δ → Bool
  /-- Reads the field into the draft; the number bounds how many lists and objects may be open. -/
  read : Nat → δ → Reader δ

/-- How a record of type `α` is read by way of drafts of type `δ`. -/
structure RecordShape (δ α : Type) where
  /-- The name of the record in messages. -/
  label : String
  /-- The fields, in the order of their declaration. -/
  fields : List (Field δ)
  /-- The draft without fields. -/
  draft : δ
  /-- The record that a draft makes, when it has all that it needs. -/
  finish : δ → Except ShapeFault α

namespace Reader

variable {δ α : Type}

/-- Reads the fields of a record from inside a list. -/
def fieldsInOrder (expected : String) (depth : Nat) :
    List (Field δ) → Nat → Bool → δ → Reader δ
  | [], _, _, draft => pure draft
  | field :: fields, index, first, draft => do
    if ← hasElement first then
      let draft ← field.read depth draft
      fieldsInOrder expected depth fields (index + 1) false draft
    else if field.optional then fieldsInOrder expected depth fields (index + 1) first draft
    else refuse (.wrongLength index expected)

/-- Reads the fields of a record from inside an object, of which there must be fewer than given,
in a text of at most so many characters. -/
def fieldsByName (most depth : Nat) (fields : List (Field δ)) : Nat → Bool → δ → Reader δ
  | 0, _, _ => fail .endInObject
  | steps + 1, first, draft => do
    match ← nextKey first with
    | none => pure draft
    | some key =>
      match fields.find? (·.name == key) with
      | none =>
        colon
        ignored most
        fieldsByName most depth fields steps false draft
      | some field =>
        if field.isFilled draft then refuse (.duplicateField key)
        else
          colon
          let draft ← field.read depth draft
          fieldsByName most depth fields steps false draft

/-- Reads a record. -/
def record (most depth : Nat) (shape : RecordShape δ α) : Reader α :=
  byFirst fun c =>
    if c = '[' then
      let expected :=
        "struct " ++ shape.label ++ " with " ++ toString shape.fields.length ++ " elements"
      entered depth closeList fun depth => do
        ofExcept (shape.finish (← fieldsInOrder expected depth shape.fields 0 true shape.draft))
    else if c = '\x7b' then
      entered depth closeObject fun depth => do
        ofExcept (shape.finish (← fieldsByName most depth shape.fields most true shape.draft))
    else mismatched ("struct " ++ shape.label)

/-- Reads a whole text: a value with nothing but blanks around it. -/
def readAll (reader : Nat → Nat → Reader α) (source : String) : Except Fault α :=
  let text := source.toList
  match placed (reader text.length deepest) (.start text) with
  | .failed fault => .error fault
  | .misfit fault cursor => .error ⟨.misshapen fault, cursor.position⟩
  | .done value cursor =>
    let cursor := cursor.skipBlanks
    if cursor.rest.isEmpty then .ok value
    else .error ⟨.malformed .trailingCharacters, cursor.ahead⟩

end Reader

end EventOrder.Json
