import EventOrder.Number.Shortest
import EventOrder.Text.Quoted

/-!
# Faults of a JSON text

A text is at fault when it is no JSON, or when it is JSON of another shape than was asked for. A
fault is reported with a position: the line, counted from 1, and the bytes of the line before it.
-/

namespace EventOrder.Json

/-- A place in a text. -/
structure Position where
  /-- The line, counted from 1. -/
  line : Nat
  /-- How many bytes of the line come before. -/
  column : Nat
deriving DecidableEq, Repr, Inhabited

namespace Position

/-- The start of a text. -/
def start : Position := ⟨1, 0⟩

/-- The position after a character. -/
def past (position : Position) (c : Char) : Position :=
  if c = '\n' then ⟨position.line + 1, 0⟩ else ⟨position.line, position.column + c.utf8Size⟩

/-- The position some bytes into the characters that follow, or at their end. -/
def pastBytes (position : Position) : Nat → List Char → Position
  | _, [] => position
  | count, c :: rest =>
    if c.utf8Size ≤ count then pastBytes (position.past c) (count - c.utf8Size) rest
    else ⟨position.line, position.column + count⟩

end Position

/-- Why a text is no JSON. -/
inductive SyntaxFault where
  | endInList
  | endInObject
  | endInString
  | endInValue
  | expectedColon
  | expectedListCommaOrEnd
  | expectedObjectCommaOrEnd
  | expectedIdent
  | expectedValue
  | invalidEscape
  | invalidNumber
  | numberOutOfRange
  | controlCharacter
  | keyNotString
  | loneSurrogate
  | trailingComma
  | trailingCharacters
  | unfinishedSurrogates
  | nestedTooDeep
deriving DecidableEq, Repr, Inhabited

/-- The wording of a syntax fault. -/
def SyntaxFault.message : SyntaxFault → String
  | .endInList => "EOF while parsing a list"
  | .endInObject => "EOF while parsing an object"
  | .endInString => "EOF while parsing a string"
  | .endInValue => "EOF while parsing a value"
  | .expectedColon => "expected `:`"
  | .expectedListCommaOrEnd => "expected `,` or `]`"
  | .expectedObjectCommaOrEnd => "expected `,` or `\x7d`"
  | .expectedIdent => "expected ident"
  | .expectedValue => "expected value"
  | .invalidEscape => "invalid escape"
  | .invalidNumber => "invalid number"
  | .numberOutOfRange => "number out of range"
  | .controlCharacter => "control character (\\u0000-\\u001F) found while parsing a string"
  | .keyNotString => "key must be a string"
  | .loneSurrogate => "lone leading surrogate in hex escape"
  | .trailingComma => "trailing comma"
  | .trailingCharacters => "trailing characters"
  | .unfinishedSurrogates => "unexpected end of hex escape"
  | .nestedTooDeep => "recursion limit exceeded"

/-- A number as it is written: whole numbers of 64 bits, signed or not, and doubles for all else. -/
inductive Number where
  /-- A whole number of 64 bits. -/
  | whole (value : Int)
  /-- A double with its sign. -/
  | floating (negative : Bool) (magnitude : Double)
deriving DecidableEq, Repr, Inhabited

/-- Doubles from 0.00001 up to below 10 to the 16 are written in place. -/
def numberLayout : Decimal.Layout := ⟨-5, 15⟩

/-- A double is written with the fewest digits that read back as the same double. -/
def floatingText (negative : Bool) (magnitude : Double) : String :=
  (if negative then "-" else "") ++
    if magnitude.mantissa = 0 then "0.0" else numberLayout.text (Decimal.shortest magnitude)

/-- What was found where something else was expected. -/
inductive Found where
  | null
  | boolean (value : Bool)
  | number (value : Number)
  | text (value : String)
  | sequence
  | map
deriving DecidableEq, Repr, Inhabited

/-- How something found is named in a message. -/
def Found.message : Found → String
  | .null => "null"
  | .boolean value => "boolean `" ++ (if value then "true" else "false") ++ "`"
  | .number (.whole value) => "integer `" ++ toString value ++ "`"
  | .number (.floating negative magnitude) =>
    "floating point `" ++ floatingText negative magnitude ++ "`"
  | .text value => "string " ++ quoted value
  | .sequence => "sequence"
  | .map => "map"

/-- Why a JSON value does not have the shape asked for. -/
inductive ShapeFault where
  /-- The value is of another kind than expected. -/
  | wrongKind (found : Found) (expected : String)
  /-- The value is of the right kind but not allowed. -/
  | wrongValue (found : Found) (expected : String)
  /-- A list has another length than expected. -/
  | wrongLength (length : Nat) (expected : String)
  /-- A field is not given. -/
  | missingField (name : String)
  /-- A field is given twice. -/
  | duplicateField (name : String)
  /-- A name is none of those known. -/
  | unknownVariant (name : String) (known : List String)
deriving DecidableEq, Repr, Inhabited

/-- Puts a name into a message. -/
def named (name : String) : String := "`" ++ name ++ "`"

/-- The wording of a shape fault. -/
def ShapeFault.message : ShapeFault → String
  | .wrongKind found expected => "invalid type: " ++ found.message ++ ", expected " ++ expected
  | .wrongValue found expected => "invalid value: " ++ found.message ++ ", expected " ++ expected
  | .wrongLength length expected =>
    "invalid length " ++ toString length ++ ", expected " ++ expected
  | .missingField name => "missing field " ++ named name
  | .duplicateField name => "duplicate field " ++ named name
  | .unknownVariant name known =>
    "unknown variant " ++ named name ++ ", expected one of " ++ ", ".intercalate (known.map named)

/-- Why a text cannot be read. -/
inductive Cause where
  /-- The text is no JSON. -/
  | malformed (fault : SyntaxFault)
  /-- The text has another shape than asked for. -/
  | misshapen (fault : ShapeFault)
deriving DecidableEq, Repr, Inhabited

/-- A cause and where it shows. -/
structure Fault where
  /-- Why the text cannot be read. -/
  cause : Cause
  /-- Where that shows. -/
  position : Position
deriving DecidableEq, Repr, Inhabited

/-- The wording of a cause. -/
def Cause.message : Cause → String
  | .malformed fault => fault.message
  | .misshapen fault => fault.message

/-- The wording of a fault, which ends with its position. -/
def Fault.message (fault : Fault) : String :=
  fault.cause.message ++ " at line " ++ toString fault.position.line ++ " column " ++
    toString fault.position.column

end EventOrder.Json
