import EventOrder.Json.Fault

/-!
# Locations in a source text

A fault in a source text is pointed at by a span of no length, at a byte offset that is found from a
line and a column, both counted from 1, and never lies outside the text. The offset is found on
lines that end with a line feed; the place that is shown for it counts carriage returns as line ends
too.
-/

namespace EventOrder.CommandLine

/-- How many bytes the first lines of a text take, their ends included. -/
def bytesOfLines : Nat → List Char → Nat
  | 0, _ => 0
  | _ + 1, [] => 0
  | lines + 1, c :: rest =>
    c.utf8Size + bytesOfLines (if c = '\n' then lines else lines + 1) rest

/-- The byte offset of a line and a column, or the end of the text when that comes first. -/
def offsetOf (source : String) (line column : Nat) : Nat :=
  min (bytesOfLines (line - 1) source.toList + (column - 1)) source.utf8ByteSize

/-- A stretch of a text. -/
structure Span where
  /-- The byte offset that it starts at. -/
  offset : Nat
  /-- How many bytes it takes. -/
  length : Nat
deriving DecidableEq, Repr, Inhabited

/-- The stretch that a fault at a position is pointed at. It is empty. -/
def Span.ofPosition (source : String) (position : Json.Position) : Span :=
  ⟨offsetOf source position.line position.column, 0⟩

/-- The position some bytes into the characters that follow. A line ends with a line feed, with a
carriage return, or with the two together, and the next line begins where that end is complete. The
characters of the end take no column. -/
def positionWithin (position : Json.Position) : Nat → List Char → Json.Position
  | _, [] => position
  | offset, '\r' :: '\n' :: rest =>
    if offset < 2 then position else positionWithin ⟨position.line + 1, 0⟩ (offset - 2) rest
  | offset, c :: rest =>
    if c = '\n' || c = '\r' then
      if offset < 1 then position else positionWithin ⟨position.line + 1, 0⟩ (offset - 1) rest
    else if offset < c.utf8Size then ⟨position.line, position.column + offset⟩
    else positionWithin ⟨position.line, position.column + c.utf8Size⟩ (offset - c.utf8Size) rest

/-- The position of a byte offset. -/
def positionAt (source : String) (offset : Nat) : Json.Position :=
  positionWithin .start offset source.toList

/-- Where a span of a file starts: the file, the line and the column. -/
def locationText (file source : String) (span : Span) : String :=
  let place := positionAt source span.offset
  file ++ ":" ++ toString place.line ++ ":" ++ toString (place.column + 1)

end EventOrder.CommandLine
