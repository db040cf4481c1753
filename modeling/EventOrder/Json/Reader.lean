import EventOrder.Json.Fault

/-!
# Readers

A reader takes a value off the front of a text. It fails at once where the text is no JSON. Where
the text is JSON of another shape, it stops there, and the fault is placed by the value that
encloses it: the enclosing value is first left, as far as its closing bracket follows, and the
fault is reported there.
-/

namespace EventOrder.Json

/-- What remains of a text, and where it starts. -/
structure Cursor where
  /-- The characters that remain. -/
  rest : List Char
  /-- The position of the first of them. -/
  position : Position
deriving DecidableEq, Repr, Inhabited

namespace Cursor

/-- The cursor at the start of a text. -/
def start (text : List Char) : Cursor := ⟨text, .start⟩

/-- Passes over the next character. -/
def advance (cursor : Cursor) : Cursor :=
  match cursor.rest with
  | [] => cursor
  | c :: rest => ⟨rest, cursor.position.past c⟩

/-- The position one byte further on, or the same at the end of the text. -/
def ahead (cursor : Cursor) : Position := cursor.position.pastBytes 1 cursor.rest

/-- Blank, tabulator, line feed and carriage return may stand between the parts of a value. -/
def isBlank (c : Char) : Bool := c = ' ' || c = '\n' || c = '\t' || c = '\r'

/-- The position after the blanks that start a text, and what remains. -/
def afterBlanks (position : Position) : List Char → Cursor
  | [] => ⟨[], position⟩
  | c :: rest => if isBlank c then afterBlanks (position.past c) rest else ⟨c :: rest, position⟩

/-- Passes over blanks. -/
def skipBlanks (cursor : Cursor) : Cursor := afterBlanks cursor.position cursor.rest

end Cursor

/-- What comes of reading. -/
inductive Result (α : Type) where
  /-- A value was read. -/
  | done (value : α) (cursor : Cursor)
  /-- The text is at fault. -/
  | failed (fault : Fault)
  /-- The shape is at fault; where that is reported is left to the enclosing value. -/
  | misfit (fault : ShapeFault) (cursor : Cursor)
deriving Repr, Inhabited

/-- Something that takes a value off the front of a text. -/
def Reader (α : Type) : Type := Cursor → Result α

namespace Reader

variable {α β : Type}

/-- Reads nothing. -/
protected def pure (value : α) : Reader α := fun cursor => .done value cursor

/-- Reads one value and then what depends on it. -/
protected def bind (first : Reader α) (next : α → Reader β) : Reader β := fun cursor =>
  match first cursor with
  | .done value cursor => next value cursor
  | .failed fault => .failed fault
  | .misfit fault cursor => .misfit fault cursor

instance : Monad Reader where
  pure := Reader.pure
  bind := Reader.bind

/-- Fails at the cursor. -/
def fail (fault : SyntaxFault) : Reader α := fun cursor =>
  .failed ⟨.malformed fault, cursor.position⟩

/-- Fails just after the next byte, or at the end of the text. -/
def failAhead (fault : SyntaxFault) : Reader α := fun cursor =>
  .failed ⟨.malformed fault, cursor.ahead⟩

/-- Refuses the shape of what was read. -/
def refuse (fault : ShapeFault) : Reader α := fun cursor => .misfit fault cursor

/-- Accepts a value or refuses the shape. -/
def ofExcept : Except ShapeFault α → Reader α
  | .ok value => Reader.pure value
  | .error fault => refuse fault

/-- The next character, if there is one; it is not passed over. -/
def peek : Reader (Option Char) := fun cursor => .done cursor.rest.head? cursor

/-- Passes over the next character. -/
def skip : Reader Unit := fun cursor => .done () cursor.advance

/-- The next character after blanks, which are passed over. -/
def peekPastBlanks : Reader (Option Char) := fun cursor =>
  let cursor := cursor.skipBlanks
  .done cursor.rest.head? cursor

/-- Reports a misfit where the reader stopped. -/
def placed (reader : Reader α) : Reader α := fun cursor =>
  match reader cursor with
  | .misfit fault cursor => .failed ⟨.misshapen fault, cursor.position⟩
  | result => result

/-- Reads the inside of a bracketed value and then its end. When the inside has the wrong shape,
the end is looked for all the same, and the misfit is reported where that search stopped. -/
def enclosed (close : Cursor → Cursor × Option Fault) (inside : Reader α) : Reader α :=
  fun cursor =>
  match inside cursor with
  | .failed fault => .failed fault
  | .misfit fault cursor => .failed ⟨.misshapen fault, (close cursor).1.position⟩
  | .done value cursor =>
    match close cursor with
    | (_, some fault) => .failed fault
    | (cursor, none) => .done value cursor

end Reader

/-- Looks for the end of an object. -/
def closeObject (cursor : Cursor) : Cursor × Option Fault :=
  let cursor := cursor.skipBlanks
  let missing (fault : SyntaxFault) : Cursor × Option Fault :=
    (cursor, some ⟨.malformed fault, cursor.ahead⟩)
  match cursor.rest with
  | '\x7d' :: _ => (cursor.advance, none)
  | ',' :: _ => missing .trailingComma
  | _ :: _ => missing .trailingCharacters
  | [] => missing .endInObject

/-- Looks for the end of a list; a comma in its place is passed over. -/
def closeList (cursor : Cursor) : Cursor × Option Fault :=
  let missing (cursor : Cursor) (fault : SyntaxFault) : Cursor × Option Fault :=
    (cursor, some ⟨.malformed fault, cursor.ahead⟩)
  let cursor := cursor.skipBlanks
  match cursor.rest with
  | ']' :: _ => (cursor.advance, none)
  | ',' :: _ =>
    let cursor := cursor.advance.skipBlanks
    if cursor.rest.head? = some ']' then missing cursor .trailingComma
    else missing cursor .trailingCharacters
  | _ :: _ => missing cursor .trailingCharacters
  | [] => missing cursor .endInList

end EventOrder.Json
