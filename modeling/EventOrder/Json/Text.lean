import EventOrder.Json.Reader

/-!
# JSON strings

The inside of a string: plain characters and escapes. Four hexadecimal digits name a UTF-16 unit,
and two units of a surrogate pair name one character. Control characters have to be escaped.
-/

namespace EventOrder.Json

/-- The value of a hexadecimal digit. -/
def hexValue? (c : Char) : Option Nat :=
  if c.isDigit then some (c.toNat - '0'.toNat)
  else if 'a' ≤ c ∧ c ≤ 'f' then some (c.toNat - 'a'.toNat + 10)
  else if 'A' ≤ c ∧ c ≤ 'F' then some (c.toNat - 'A'.toNat + 10)
  else none

/-- The unit that four hexadecimal digits name. -/
def hexUnit? (a b c d : Char) : Option Nat := do
  return (((← hexValue? a) * 16 + (← hexValue? b)) * 16 + (← hexValue? c)) * 16 + (← hexValue? d)

/-- Whether the unit is the first of a surrogate pair. -/
def isLeading (unit : Nat) : Bool := 0xD800 ≤ unit && unit ≤ 0xDBFF

/-- Whether the unit is the second of a surrogate pair. -/
def isTrailing (unit : Nat) : Bool := 0xDC00 ≤ unit && unit ≤ 0xDFFF

/-- The character that a surrogate pair names. -/
def pairChar (leading trailing : Nat) : Char :=
  Char.ofNat ((leading - 0xD800) * 0x400 + (trailing - 0xDC00) + 0x10000)

/-- The character that an escape of one letter stands for. -/
def shortEscape? : Char → Option Char
  | '"' => some '"'
  | '\\' => some '\\'
  | '/' => some '/'
  | 'b' => some '\x08'
  | 'f' => some '\x0c'
  | 'n' => some '\n'
  | 'r' => some '\r'
  | 't' => some '\t'
  | _ => none

/-- Whether the character has to be escaped in a string for being a control character. -/
def isControl (c : Char) : Bool := c.toNat < 0x20

/-- How many bytes the characters take. -/
def byteCount (text : List Char) : Nat := text.foldr (fun c count => c.utf8Size + count) 0

/-- The position after four bytes of an escape. -/
def pastUnit (position : Position) (text : List Char) : Position := position.pastBytes 4 text

/-- The fault of hexadecimal digits that name no unit: the text ends before four bytes, or some of
them is no digit. -/
def unitFault (position : Position) (text : List Char) : Fault :=
  if byteCount text < 4 then ⟨.malformed .endInString, position.pastBytes (byteCount text) text⟩
  else ⟨.malformed .invalidEscape, pastUnit position text⟩

/-- The fault of what follows the leading unit of a surrogate pair, when that is no trailing unit.
-/
def pairFault (position : Position) : List Char → Fault
  | [] => ⟨.malformed .endInString, position⟩
  | '\\' :: rest =>
    let position := position.past '\\'
    match rest with
    | [] => ⟨.malformed .endInString, position⟩
    | 'u' :: digits =>
      let position := position.past 'u'
      match digits with
      | a :: b :: c :: d :: _ =>
        if (hexUnit? a b c d).isSome then ⟨.malformed .loneSurrogate, pastUnit position digits⟩
        else unitFault position digits
      | _ => unitFault position digits
    | _ => ⟨.malformed .unfinishedSurrogates, position.pastBytes 1 rest⟩
  | rest => ⟨.malformed .unfinishedSurrogates, position.pastBytes 1 rest⟩

/-- The position after an escape of a unit, backslash included. -/
def pastEscape (position : Position) : Position := ⟨position.line, position.column + 6⟩

/-- Reads up to the closing quote; the characters read so far come in reverse. -/
def textInside (soFar : List Char) (position : Position) : List Char → Result String
  | [] => .failed ⟨.malformed .endInString, position⟩
  | '"' :: rest => .done (String.ofList soFar.reverse) ⟨rest, position.past '"'⟩
  | '\\' :: 'u' :: a :: b :: c :: d :: rest =>
    match hexUnit? a b c d with
    | none => .failed (unitFault ((position.past '\\').past 'u') (a :: b :: c :: d :: rest))
    | some unit =>
      if isTrailing unit then .failed ⟨.malformed .loneSurrogate, pastEscape position⟩
      else if isLeading unit then
        match rest with
        | '\\' :: 'u' :: e :: f :: g :: h :: rest' =>
          match (hexUnit? e f g h).filter isTrailing with
          | some trailing =>
            textInside (pairChar unit trailing :: soFar) (pastEscape (pastEscape position)) rest'
          | none => .failed (pairFault (pastEscape position) rest)
        | _ => .failed (pairFault (pastEscape position) rest)
      else textInside (Char.ofNat unit :: soFar) (pastEscape position) rest
  | '\\' :: rest =>
    match rest with
    | [] => .failed ⟨.malformed .endInString, position.past '\\'⟩
    | 'u' :: digits => .failed (unitFault ((position.past '\\').past 'u') digits)
    | c :: rest' =>
      match shortEscape? c with
      | some escaped => textInside (escaped :: soFar) ((position.past '\\').past c) rest'
      | none =>
        .failed ⟨.malformed .invalidEscape, (position.past '\\').pastBytes 1 rest⟩
  | c :: rest =>
    if isControl c then .failed ⟨.malformed .controlCharacter, position.past c⟩
    else textInside (c :: soFar) (position.past c) rest

/-- Passes over a string without looking at what it says: units need not pair up, and a control
character is reported before it. -/
def skipTextInside (position : Position) : List Char → Result Unit
  | [] => .failed ⟨.malformed .endInString, position⟩
  | '"' :: rest => .done () ⟨rest, position.past '"'⟩
  | '\\' :: 'u' :: a :: b :: c :: d :: rest =>
    match hexUnit? a b c d with
    | none => .failed (unitFault ((position.past '\\').past 'u') (a :: b :: c :: d :: rest))
    | some _ => skipTextInside (pastEscape position) rest
  | '\\' :: rest =>
    match rest with
    | [] => .failed ⟨.malformed .endInString, position.past '\\'⟩
    | 'u' :: digits => .failed (unitFault ((position.past '\\').past 'u') digits)
    | c :: rest' =>
      if (shortEscape? c).isSome then skipTextInside ((position.past '\\').past c) rest'
      else .failed ⟨.malformed .invalidEscape, (position.past '\\').pastBytes 1 rest⟩
  | c :: rest =>
    if isControl c then .failed ⟨.malformed .controlCharacter, position⟩
    else skipTextInside (position.past c) rest

namespace Reader

/-- Reads a string from its opening quote on. -/
def quotedText : Reader String := fun cursor =>
  let cursor := cursor.advance
  textInside [] cursor.position cursor.rest

/-- Passes over a string from its opening quote on. -/
def skipQuotedText : Reader Unit := fun cursor =>
  let cursor := cursor.advance
  skipTextInside cursor.position cursor.rest

end Reader

end EventOrder.Json
