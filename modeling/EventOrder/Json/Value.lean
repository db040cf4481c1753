import EventOrder.Json.Number
import EventOrder.Json.Text

/-!
# Values of a given shape

Readers for the values that a document may be asked for. What stands in a value's place decides: a
bracket, a quote, a digit or a letter says which kind of value it is, and a value of another kind
than asked for is read as far as its kind shows and then refused.
-/

namespace EventOrder.Json.Reader

variable {α : Type}

/-- Reads the given letters. -/
def letters : List Char → Reader Unit
  | [] => pure ()
  | expected :: more => do
    match ← peek with
    | none => fail .endInValue
    | some c => if c = expected then skip; letters more else failAhead .expectedIdent

/-- Says what stands in a value's place. A list or an object is not entered. -/
def found : Reader Found := do
  match ← peek with
  | some 'n' => skip; letters ['u', 'l', 'l']; pure .null
  | some 't' => skip; letters ['r', 'u', 'e']; pure (.boolean true)
  | some 'f' => skip; letters ['a', 'l', 's', 'e']; pure (.boolean false)
  | some '-' => skip; return .number (← number false)
  | some '"' => return .text (← quotedText)
  | some '[' => pure .sequence
  | some '\x7b' => pure .map
  | some c => if c.isDigit then return .number (← number true) else failAhead .expectedValue
  | none => failAhead .expectedValue

/-- Refuses what stands in a value's place. -/
def mismatched (expected : String) : Reader α :=
  placed do refuse (.wrongKind (← found) expected)

/-- Reads a value by its first character, which there must be. -/
def byFirst (read : Char → Reader α) : Reader α := do
  match ← peekPastBlanks with
  | none => failAhead .endInValue
  | some c => read c

/-- Reads a string. -/
def text (expected : String) : Reader String :=
  byFirst fun c => if c = '"' then quotedText else mismatched expected

/-- Reads a number. -/
def numeral (expected : String) : Reader Number :=
  byFirst fun c =>
    if c = '-' then do skip; number false
    else if c.isDigit then number true
    else mismatched expected

/-- A whole number in a range; any other number is refused. -/
def inRange (least most : Int) (expected : String) : Number → Except ShapeFault Int
  | .whole value =>
    if least ≤ value ∧ value ≤ most then .ok value
    else .error (.wrongValue (.number (.whole value)) expected)
  | number => .error (.wrongKind (.number number) expected)

/-- An unsigned 64-bit number. -/
def asUnsigned (number : Number) : Except ShapeFault Nat :=
  (inRange 0 (2 ^ 64 - 1) "u64" number).map Int.toNat

/-- A signed 64-bit number. -/
def asSigned (number : Number) : Except ShapeFault Int64 :=
  (inRange (-2 ^ 63) (2 ^ 63 - 1) "i64" number).map Int64.ofInt

/-- Reads an unsigned 64-bit number. -/
def unsigned : Reader Nat := placed do ofExcept (asUnsigned (← numeral "u64"))

/-- Reads a signed 64-bit number. -/
def signed : Reader Int64 := placed do ofExcept (asSigned (← numeral "i64"))

/-- Whether another element of a list follows. -/
def hasElement (first : Bool) : Reader Bool := do
  match ← peekPastBlanks with
  | some ']' => pure false
  | none => failAhead .endInList
  | some c =>
    if first then pure true
    else if c = ',' then
      skip
      match ← peekPastBlanks with
      | some ']' => failAhead .trailingComma
      | some _ => pure true
      | none => failAhead .endInValue
    else failAhead .expectedListCommaOrEnd

/-- The key of the next field of an object, if another field follows. -/
def nextKey (first : Bool) : Reader (Option String) := do
  match ← peekPastBlanks with
  | some '\x7d' => pure none
  | none => failAhead .endInObject
  | some c =>
    if first then if c = '"' then return some (← quotedText) else failAhead .keyNotString
    else if c = ',' then
      skip
      match ← peekPastBlanks with
      | some '"' => return some (← quotedText)
      | some '\x7d' => failAhead .trailingComma
      | some _ => failAhead .keyNotString
      | none => failAhead .endInValue
    else failAhead .expectedObjectCommaOrEnd

/-- Passes over the colon after a key. -/
def colon : Reader Unit := do
  match ← peekPastBlanks with
  | some ':' => skip
  | some _ => failAhead .expectedColon
  | none => failAhead .endInObject

/-- How many lists and objects may be open at once. -/
def deepest : Nat := 127

/-- Enters a list or an object, of which only so many may be open at once. -/
def entered (depth : Nat) (close : Cursor → Cursor × Option Fault) (inside : Nat → Reader α) :
    Reader α :=
  match depth with
  | 0 => failAhead .nestedTooDeep
  | depth + 1 => enclosed close do skip; inside depth

/-- Reads elements up to the end of a list, of which there must be fewer than given; those read so
far come in reverse. -/
def elements (element : Reader α) : Nat → Bool → List α → Reader (List α)
  | 0, _, _ => fail .endInList
  | most + 1, first, soFar => do
    if ← hasElement first then
      let value ← element
      elements element most false (value :: soFar)
    else pure soFar.reverse

/-- Reads a list of fewer elements than given. -/
def list (most depth : Nat) (element : Nat → Reader α) : Reader (List α) :=
  byFirst fun c =>
    if c = '[' then entered depth closeList fun depth => elements (element depth) most true []
    else mismatched "a sequence"

end EventOrder.Json.Reader
