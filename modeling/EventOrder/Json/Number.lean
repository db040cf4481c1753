import EventOrder.Json.Reader

/-!
# JSON numbers

A number without fraction and exponent that fits 64 bits is whole. Any other number is the double
that its significant digits, as far as they fit 64 bits, and its power of ten give; so is a
negative zero.
-/

namespace EventOrder.Json

/-- The largest significand that is kept digit by digit. -/
def mostSignificand : Nat := 2 ^ 64 - 1

/-- The largest power of ten that is kept digit by digit. -/
def mostExponent : Nat := 2 ^ 31 - 1

/-- The value of a decimal digit. -/
def digitValue (c : Char) : Nat := c.toNat - '0'.toNat

/-- Digits taken off the front of a text. -/
structure Digits where
  /-- The number that they and the digits before them make. -/
  value : Nat
  /-- How many digits were taken. -/
  count : Nat
  /-- What remains. -/
  rest : List Char
deriving Repr, Inhabited

/-- Whether another digit follows. -/
def Digits.isCut (digits : Digits) : Bool := digits.rest.head?.any Char.isDigit

/-- Takes digits as long as the number that they make stays within a bound. -/
def takeDigits (bound value count : Nat) : List Char → Digits
  | [] => ⟨value, count, []⟩
  | c :: rest =>
    if c.isDigit && value * 10 + digitValue c ≤ bound then
      takeDigits bound (value * 10 + digitValue c) (count + 1) rest
    else ⟨value, count, c :: rest⟩

/-- Takes all digits that follow and answers how many they were. -/
def skipDigits (count : Nat) : List Char → Nat × List Char
  | [] => (count, [])
  | c :: rest => if c.isDigit then skipDigits (count + 1) rest else (count, c :: rest)

/-- The cursor after characters of one byte each that stay in the line. -/
def Cursor.after (cursor : Cursor) (count : Nat) (rest : List Char) : Cursor :=
  ⟨rest, cursor.position.line, cursor.position.column + count⟩

namespace Reader

/-- Takes digits within a bound. -/
def digits (bound value : Nat) : Reader Digits := fun cursor =>
  let digits := takeDigits bound value 0 cursor.rest
  .done digits (cursor.after digits.count digits.rest)

/-- Takes all digits that follow. -/
def allDigits : Reader Nat := fun cursor =>
  let (count, rest) := skipDigits 0 cursor.rest
  .done count (cursor.after count rest)

/-- The double for a significand and a power of ten. -/
def scaled (positive : Bool) (significand : Nat) (power : Int) : Reader Number :=
  match Double.scale? significand power with
  | some magnitude => pure (.floating (!positive) magnitude)
  | none => fail .numberOutOfRange

/-- Reads an exponent from its letter on. -/
def exponent (positive : Bool) (significand : Nat) (power : Int) : Reader Number := do
  skip
  let upward ←
    match ← peek with
    | some '+' => skip; pure true
    | some '-' => skip; pure false
    | _ => pure true
  match ← peek with
  | none => fail .endInValue
  | some c =>
    if !c.isDigit then failAhead .invalidNumber
    else
      let written ← digits mostExponent 0
      if written.isCut then
        skip
        if significand ≠ 0 ∧ upward then fail .numberOutOfRange
        else
          let _ ← allDigits
          pure (.floating (!positive) .zero)
      else if upward then scaled positive significand (power + written.value)
      else scaled positive significand (power - written.value)

/-- Reads an exponent if there is one. -/
def exponentOrEnd (positive : Bool) (significand : Nat) (power : Int) : Reader Number := do
  match ← peek with
  | some 'e' | some 'E' => exponent positive significand power
  | _ => scaled positive significand power

/-- Reads a fraction from its point on. Digits that do not fit are passed over. -/
def fraction (positive : Bool) (significand : Nat) (power : Int) : Reader Number := do
  skip
  let written ← digits mostSignificand significand
  let power := power - written.count
  if written.isCut then
    let _ ← allDigits
    exponentOrEnd positive written.value power
  else if written.count = 0 then
    match ← peek with
    | none => fail .endInValue
    | some _ => failAhead .invalidNumber
  else exponentOrEnd positive written.value power

/-- A whole number, if it fits; negative zero does not. -/
def whole (positive : Bool) (magnitude : Nat) : Number :=
  if positive then .whole magnitude
  else if 0 < magnitude ∧ magnitude ≤ 2 ^ 63 then .whole (-(magnitude : Int))
  else .floating true (.ofNat magnitude)

/-- Reads what follows the digits before the point. -/
def numberTail (positive : Bool) (significand : Nat) : Reader Number := do
  match ← peek with
  | some '.' => fraction positive significand 0
  | some 'e' | some 'E' => exponent positive significand 0
  | _ => pure (whole positive significand)

/-- Reads on when the digits before the point do not fit; each digit passed over is a power of
ten. -/
def longNumberTail (positive : Bool) (significand : Nat) : Reader Number := do
  let power ← allDigits
  match ← peek with
  | some '.' => fraction positive significand power
  | _ => exponentOrEnd positive significand power

/-- Reads a number from its first digit on. -/
def number (positive : Bool) : Reader Number := do
  match ← peek with
  | none => fail .endInValue
  | some '0' =>
    skip
    match ← peek with
    | some c => if c.isDigit then failAhead .invalidNumber else numberTail positive 0
    | none => numberTail positive 0
  | some c =>
    if !c.isDigit then failAhead .invalidNumber
    else
      let written ← digits mostSignificand 0
      if written.isCut then longNumberTail positive written.value
      else numberTail positive written.value

end Reader

end EventOrder.Json
