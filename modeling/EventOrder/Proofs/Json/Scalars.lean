import EventOrder.Json.Printer
import EventOrder.Proofs.Json.Reads
import Mathlib.Data.Char

/-!
# Strings and numbers read back

Every string is read back from the characters that it is written in, whatever characters it has: an
escape names just the character that it was written for. A whole number that fits 64 bits is read
back from its digits when no character follows that would go on with the number.
-/

namespace EventOrder.Json

/-- The digits of a control character's escape name it. -/
theorem hexUnit?_escape {c : Char} (hc : isControl c = true) :
    hexUnit? '0' '0' (hexDigit (c.toNat / 16)) (hexDigit (c.toNat % 16)) = some c.toNat := by
  have hall : ∀ unit < 0x20,
      hexUnit? '0' '0' (hexDigit (unit / 16)) (hexDigit (unit % 16)) = some unit := by
    decide
  exact hall c.toNat (of_decide_eq_true hc)

/-- A character of a string is read back from its escape, or from itself when it needs none. -/
theorem textInside_escapedChar (c : Char) (soFar rest : List Char) (position : Position) :
    ∃ after, textInside soFar position (escapedChar c ++ rest) =
      textInside (c :: soFar) after rest := by
  unfold escapedChar
  split
  · exact ⟨_, rfl⟩
  · exact ⟨_, rfl⟩
  · exact ⟨_, rfl⟩
  · exact ⟨_, rfl⟩
  · exact ⟨_, rfl⟩
  · exact ⟨_, rfl⟩
  · exact ⟨_, rfl⟩
  · rename_i hquote hbackslash _ _ _ _ _
    split
    · rename_i hcontrol
      have hbound : c.toNat < 0x20 := of_decide_eq_true hcontrol
      have htrailing : isTrailing c.toNat = false := by
        simp only [isTrailing, Bool.and_eq_false_iff, decide_eq_false_iff_not]
        omega
      have hleading : isLeading c.toNat = false := by
        simp only [isLeading, Bool.and_eq_false_iff, decide_eq_false_iff_not]
        omega
      refine ⟨pastEscape position, ?_⟩
      simp only [List.cons_append, List.nil_append, textInside, hexUnit?_escape hcontrol,
        htrailing, hleading, Bool.false_eq_true, if_false, Char.ofNat_toNat]
    · rename_i hcontrol
      refine ⟨position.past c, ?_⟩
      rw [List.cons_append, List.nil_append, textInside.eq_def]
      split <;> simp_all

/-- The inside of a string is read back up to the closing quote. -/
theorem textInside_escaped (text soFar rest : List Char) (position : Position) :
    ∃ after, textInside soFar position (text.flatMap escapedChar ++ '"' :: rest) =
      .done (String.ofList (soFar.reverse ++ text)) ⟨rest, after⟩ := by
  induction text generalizing soFar position with
  | nil => exact ⟨position.past '"', by simp [textInside]⟩
  | cons c text ih =>
    obtain ⟨between, hfirst⟩ := textInside_escapedChar c soFar
      (text.flatMap escapedChar ++ '"' :: rest) position
    obtain ⟨after, hrest⟩ := ih (c :: soFar) between
    refine ⟨after, ?_⟩
    rw [List.flatMap_cons, List.append_assoc, hfirst, hrest, List.reverse_cons, List.append_assoc]
    rfl

namespace Reader

/-- A string is read back from its opening quote on. -/
theorem reads_quotedText (text : String) (rest : List Char) :
    quotedText.Reads (textChars text ++ rest) text rest := by
  intro position
  obtain ⟨after, hafter⟩ := textInside_escaped text.toList [] rest (position.past '"')
  refine ⟨after, ?_⟩
  simp only [List.reverse_nil, List.nil_append, String.ofList_toList] at hafter
  rw [← hafter]
  simp only [quotedText, textChars, Cursor.advance, List.cons_append, List.append_assoc,
    List.nil_append]

end Reader

/-- No number goes on with what follows. -/
def Delimits (rest : List Char) : Prop :=
  ∀ c ∈ rest.head?, c.isDigit = false ∧ c ≠ '.' ∧ c ≠ 'e' ∧ c ≠ 'E'

/-- Appending digits to a number makes it no smaller. -/
private theorem le_ofDigitChars (text : List Char) (value : Nat) :
    value ≤ Nat.ofDigitChars 10 text value := by
  induction text generalizing value with
  | nil => exact Nat.le_refl value
  | cons c text ih =>
    rw [Nat.ofDigitChars_cons]
    exact Nat.le_trans (by omega) (ih _)

/-- Digits are taken up to the first character that is none, as long as the number that they make
stays within the bound. -/
theorem takeDigits_append {bound : Nat} {rest : List Char} (hrest : Delimits rest)
    {text : List Char} (htext : ∀ c ∈ text, c.isDigit = true) {value : Nat}
    (hbound : Nat.ofDigitChars 10 text value ≤ bound) (count : Nat) :
    takeDigits bound value count (text ++ rest) =
      ⟨Nat.ofDigitChars 10 text value, count + text.length, rest⟩ := by
  induction text generalizing value count with
  | nil =>
    cases rest with
    | nil => rfl
    | cons c rest =>
      have hdigit := (hrest c rfl).1
      simp [takeDigits, hdigit]
  | cons c text ih =>
    have hdigit : c.isDigit = true := htext c List.mem_cons_self
    have hmade : Nat.ofDigitChars 10 (c :: text) value =
        Nat.ofDigitChars 10 text (value * 10 + digitValue c) := by
      rw [Nat.ofDigitChars_cons, Nat.mul_comm]
      rfl
    rw [hmade] at hbound ⊢
    have hfits : value * 10 + digitValue c ≤ bound :=
      Nat.le_trans (le_ofDigitChars text _) hbound
    rw [List.cons_append, takeDigits]
    simp only [hdigit, hfits, decide_true, Bool.and_self, if_true]
    rw [ih (fun other hother => htext other (List.mem_cons_of_mem _ hother)) hbound,
      List.length_cons, Nat.add_assoc, Nat.add_comm 1]

/-- The digits of a positive number do not start with zero. -/
theorem exists_toDigits {value : Nat} (hvalue : 0 < value) :
    ∃ c text, Nat.toDigits 10 value = c :: text ∧ c ≠ '0' := by
  induction value using Nat.strongRecOn with
  | ind value ih =>
    by_cases hsmall : value < 10
    · refine ⟨Nat.digitChar value, [], Nat.toDigits_of_lt_base hsmall, ?_⟩
      rintro heq
      exact absurd (Nat.digitChar_eq_zero.mp heq) (by omega)
    · obtain ⟨c, text, hdigits, hc⟩ := ih (value / 10) (by omega) (by omega)
      refine ⟨c, text ++ [Nat.digitChar (value % 10)], ?_, hc⟩
      rw [Nat.toDigits_of_base_le (by omega) (by omega), hdigits]
      rfl

namespace Reader

/-- A number ends with its digits. -/
private theorem reads_numberTail {rest : List Char} (hrest : Delimits rest) (positive : Bool)
    (significand : Nat) :
    (numberTail positive significand).Reads rest (whole positive significand) rest := by
  refine (reads_peek rest).bind ?_
  cases rest with
  | nil => exact reads_pure _ _
  | cons c rest =>
    obtain ⟨-, hpoint, hsmall, hlarge⟩ := hrest c rfl
    simp only [List.head?_cons]
    split
    · rename_i heq
      exact absurd (Option.some.inj heq) hpoint
    · rename_i heq
      exact absurd (Option.some.inj heq) hsmall
    · rename_i heq
      exact absurd (Option.some.inj heq) hlarge
    · exact reads_pure _ _

/-- A number that fits 64 bits is read back from its digits. -/
theorem reads_number {rest : List Char} (hrest : Delimits rest) (positive : Bool) {value : Nat}
    (hvalue : value ≤ mostSignificand) :
    (number positive).Reads (Nat.toDigits 10 value ++ rest) (whole positive value) rest := by
  rcases Nat.eq_zero_or_pos value with rfl | hpositive
  · refine (reads_peek _).bind ((reads_skip '0' rest).bind ((reads_peek rest).bind ?_))
    cases rest with
    | nil => exact reads_numberTail hrest positive 0
    | cons c rest =>
      simp only [List.head?_cons, (hrest c rfl).1, Bool.false_eq_true, if_false]
      exact reads_numberTail hrest positive 0
  · obtain ⟨c, text, hdigits, hc⟩ := exists_toDigits hpositive
    have hall : ∀ other ∈ c :: text, other.isDigit = true := fun other hother =>
      Nat.isDigit_of_mem_toDigits (by omega) (by omega) (hdigits ▸ hother)
    have hmade : Nat.ofDigitChars 10 (c :: text) 0 = value := by
      rw [← hdigits, Nat.ofDigitChars_ten_toDigits]
    have htaken := takeDigits_append hrest hall (hmade ▸ hvalue) 0
    have hnotCut : rest.head?.any Char.isDigit = false := by
      cases rest with
      | nil => rfl
      | cons other rest => exact (hrest other rfl).1
    rw [hdigits]
    refine (reads_peek _).bind ?_
    simp only [List.cons_append, List.head?_cons, hall c List.mem_cons_self, Bool.not_true,
      Bool.false_eq_true, if_false]
    have hwritten : (digits mostSignificand 0).Reads (c :: (text ++ rest))
        ⟨value, 0 + (c :: text).length, rest⟩ rest := by
      intro position
      rw [hmade] at htaken
      refine ⟨⟨position.line, position.column + (0 + (c :: text).length)⟩, ?_⟩
      simp only [digits]
      rw [← List.cons_append, htaken]
      rfl
    refine hwritten.bind ?_
    simp only [Digits.isCut, hnotCut, Bool.false_eq_true, if_false]
    exact reads_numberTail hrest positive value

/-- A whole number of 64 bits, signed or not, is read back from what it is written in: a sign and
digits, or digits only. -/
theorem reads_wholeChars {rest : List Char} (hrest : Delimits rest) {value : Int}
    (hleast : -2 ^ 63 ≤ value) (hmost : value ≤ 2 ^ 64 - 1) :
    ∃ c text, wholeChars value = c :: text ∧
      (c = '-' ∧ (number false).Reads (text ++ rest) (.whole value) rest ∨
        c.isDigit = true ∧ (number true).Reads (c :: text ++ rest) (.whole value) rest) := by
  unfold wholeChars
  by_cases hnegative : value < 0
  · have hread := reads_number hrest false
      (show value.natAbs ≤ mostSignificand by simp only [mostSignificand]; omega)
    have hwhole : whole false value.natAbs = .whole value := by
      have hfits : 0 < value.natAbs ∧ value.natAbs ≤ 2 ^ 63 := by omega
      simp only [whole, Bool.false_eq_true, if_false, hfits, and_self, if_true]
      congr 1
      omega
    rw [hwhole] at hread
    exact ⟨'-', Nat.toDigits 10 value.natAbs, if_pos hnegative, Or.inl ⟨rfl, hread⟩⟩
  · have hread := reads_number hrest true
      (show value.natAbs ≤ mostSignificand by simp only [mostSignificand]; omega)
    have hwhole : whole true value.natAbs = .whole value := by
      simp only [whole, if_true]
      congr 1
      omega
    rw [hwhole] at hread
    cases hdigits : Nat.toDigits 10 value.natAbs with
    | nil => exact absurd hdigits Nat.toDigits_ne_nil
    | cons c text =>
      have hdigit : c.isDigit = true :=
        Nat.isDigit_of_mem_toDigits (by omega) (by omega) (hdigits ▸ List.mem_cons_self)
      refine ⟨c, text, by rw [if_neg hnegative], Or.inr ⟨hdigit, ?_⟩⟩
      rwa [hdigits] at hread

end Reader

end EventOrder.Json
