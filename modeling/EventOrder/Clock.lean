import EventOrder.Files

/-!
# Clocks

How long something took is the difference of two readings of a clock.
-/

namespace EventOrder

/-- Actions that can read a clock. -/
class Clock (m : Type → Type) where
  /-- Nanoseconds since some moment. -/
  now : m Nat

/-- In a directory held in memory time stands still. -/
instance : Clock (StateM Directory) := ⟨pure 0⟩

/-- Nanoseconds as seconds with two places, rounded to the nearest. -/
def secondsText (nanoseconds : Nat) : String :=
  let hundredths := (nanoseconds + 5000000) / 10000000
  let places := toString (hundredths % 100)
  toString (hundredths / 100) ++ "." ++ (if places.length < 2 then "0" else "") ++ places

end EventOrder
