import EventOrder.CommandLine.Response
import Mathlib.Data.Nat.Find

/-!
# Offsets of lines and columns

Every byte offset of a text lies on a line and in a column. The line is told by the line feeds among
the bytes before the offset, the column by the bytes since the last of them. Both are read off the
bytes alone, so that a column may lie within a character.

A line starts where as many line feeds came before as at the offset, and nowhere else. This is how
the bytes of the first lines add up to the start of the line that is looked for, and the offset that
is found for a line and a column is the one they were told from.
-/

namespace EventOrder.CommandLine

/-- The byte that ends a line. -/
def lineFeed : UInt8 := 10

/-- The bytes of a text. -/
def bytesOf (source : String) : List UInt8 := source.toByteArray.data.toList

/-- How many line feeds are among the bytes before an offset. -/
def feedsBefore (bytes : List UInt8) (offset : Nat) : Nat := (bytes.take offset).count lineFeed

/-- The offset lies just after a line feed. -/
def FollowsFeed (bytes : List UInt8) (offset : Nat) : Prop :=
  0 < offset ∧ bytes[offset - 1]? = some lineFeed

instance (bytes : List UInt8) : DecidablePred (FollowsFeed bytes) := fun _ =>
  inferInstanceAs (Decidable (_ ∧ _))

/-- A line starts at an offset, with some number of line feeds before it. -/
structure StartsLine (bytes : List UInt8) (feeds start : Nat) : Prop where
  /-- So many line feeds come before. -/
  feeds_eq : feedsBefore bytes start = feeds
  /-- Unless this is the start of the text, the last of them is just before. -/
  follows : start = 0 ∨ FollowsFeed bytes start

/-- The start of the line that an offset lies on: just after the last line feed before the offset,
or 0. -/
def lineStart (bytes : List UInt8) (offset : Nat) : Nat :=
  Nat.findGreatest (FollowsFeed bytes) offset

/-- The line of an offset, counted from 1. -/
def lineOf (source : String) (offset : Nat) : Nat := 1 + feedsBefore (bytesOf source) offset

/-- The column of an offset, counted from 1. -/
def columnOf (source : String) (offset : Nat) : Nat :=
  offset - lineStart (bytesOf source) offset + 1

section Bytes

variable {bytes : List UInt8} {start offset : Nat}

theorem feedsBefore_mono (hle : start ≤ offset) :
    feedsBefore bytes start ≤ feedsBefore bytes offset :=
  (List.take_sublist_take_left hle).count_le _

theorem FollowsFeed.feedsBefore_lt (hfollows : FollowsFeed bytes offset) (hlt : start < offset) :
    feedsBefore bytes start < feedsBefore bytes offset := by
  obtain ⟨hpos, hbyte⟩ := hfollows
  have hcounted : feedsBefore bytes (offset - 1 + 1) = feedsBefore bytes (offset - 1) + 1 := by
    simp [feedsBefore, List.take_add_one, hbyte]
  rw [Nat.sub_add_cancel hpos] at hcounted
  have hmono : feedsBefore bytes start ≤ feedsBefore bytes (offset - 1) :=
    feedsBefore_mono (by omega)
  omega

/-- The line that starts with as many line feeds before it as there are before an offset is the line
of this offset. -/
theorem StartsLine.lineStart_eq (h : StartsLine bytes (feedsBefore bytes offset) start) :
    lineStart bytes offset = start := by
  refine Nat.findGreatest_eq_iff.mpr ⟨?_, fun hne => h.follows.resolve_left hne, ?_⟩
  · by_contra hlt
    have hfollows : FollowsFeed bytes start := h.follows.resolve_left (by omega)
    have hmore := hfollows.feedsBefore_lt (Nat.lt_of_not_le hlt)
    have hfeeds := h.feeds_eq
    omega
  · intro later hlt hle hfollows
    have hmore := hfollows.feedsBefore_lt hlt
    have hmost : feedsBefore bytes later ≤ feedsBefore bytes offset := feedsBefore_mono hle
    have hfeeds := h.feeds_eq
    omega

theorem startsLine_zero (bytes : List UInt8) : StartsLine bytes 0 0 := ⟨rfl, Or.inl rfl⟩

theorem lineStart_le : lineStart bytes offset ≤ offset := Nat.findGreatest_le offset

theorem feedsBefore_append (front rest : List UInt8) (offset : Nat) :
    feedsBefore (front ++ rest) (front.length + offset) =
      front.count lineFeed + feedsBefore rest offset := by
  rw [feedsBefore, List.take_length_add_append, List.count_append, feedsBefore]

theorem FollowsFeed.append (front : List UInt8) (hfollows : FollowsFeed bytes offset) :
    FollowsFeed (front ++ bytes) (front.length + offset) := by
  obtain ⟨hpos, hbyte⟩ := hfollows
  refine ⟨by omega, ?_⟩
  rw [List.getElem?_append_right (by omega), ← hbyte]
  congr 1
  omega

end Bytes

/-! ### Line feeds in the bytes of characters -/

theorem le_toNat_or {high : UInt8} (hhigh : 128 ≤ high.toNat) (low : UInt8) :
    128 ≤ (low ||| high).toNat := by
  rw [UInt8.toNat_or]
  exact Nat.le_trans hhigh Nat.right_le_or

/-- The bytes of a character that takes several of them are above those of the characters that take
one. -/
theorem le_of_mem_utf8EncodeChar {c : Char} (hsize : c.utf8Size ≠ 1) {byte : UInt8}
    (hbyte : byte ∈ String.utf8EncodeChar c) : 128 ≤ byte.toNat := by
  obtain hone | htwo | hthree | hfour := c.utf8Size_eq
  · exact absurd hone hsize
  · simp only [String.utf8EncodeChar_eq_cons_cons htwo, List.mem_cons, List.not_mem_nil,
      or_false] at hbyte
    rcases hbyte with rfl | rfl <;> exact le_toNat_or (by decide) _
  · simp only [String.utf8EncodeChar_eq_cons_cons_cons hthree, List.mem_cons, List.not_mem_nil,
      or_false] at hbyte
    rcases hbyte with rfl | rfl | rfl <;> exact le_toNat_or (by decide) _
  · simp only [String.utf8EncodeChar_eq_cons_cons_cons_cons hfour, List.mem_cons,
      List.not_mem_nil, or_false] at hbyte
    rcases hbyte with rfl | rfl | rfl | rfl <;> exact le_toNat_or (by decide) _

theorem lineFeed_mem_utf8EncodeChar_iff {c : Char} :
    lineFeed ∈ String.utf8EncodeChar c ↔ c = '\n' := by
  constructor
  · intro hmem
    have hone : c.utf8Size = 1 := by
      by_contra hsize
      have hhigh := le_of_mem_utf8EncodeChar hsize hmem
      simp [lineFeed] at hhigh
    rw [String.utf8EncodeChar_eq_singleton hone, List.mem_singleton] at hmem
    have hval : c.val.toNat ≤ 127 := UInt32.le_iff_toNat_le.mp (Char.utf8Size_eq_one_iff.mp hone)
    have hbyte : c.val.toNat % 256 = 10 := (congrArg UInt8.toNat hmem).symm
    apply Char.ext
    apply UInt32.toNat_inj.mp
    have : ('\n' : Char).val.toNat = 10 := rfl
    omega
  · rintro rfl
    exact List.mem_singleton_self _

/-- A line feed is one byte, and no other character has this byte. -/
theorem count_utf8EncodeChar (c : Char) :
    (String.utf8EncodeChar c).count lineFeed = if c = '\n' then 1 else 0 := by
  split_ifs with hc
  · subst hc
    rfl
  · exact List.count_eq_zero.mpr (mt lineFeed_mem_utf8EncodeChar_iff.mp hc)

theorem bytesOf_eq_flatMap (source : String) :
    bytesOf source = source.toList.flatMap String.utf8EncodeChar := by
  conv_lhs => rw [bytesOf, ← String.ofList_toList (s := source), String.toByteArray_ofList]
  exact List.toList_data_toByteArray

theorem length_bytesOf (source : String) : (bytesOf source).length = source.utf8ByteSize := rfl

/-! ### The first lines -/

theorem bytesOfLines_cons (lines : Nat) (c : Char) (rest : List Char) :
    bytesOfLines (lines + 1) (c :: rest) = (String.utf8EncodeChar c).length +
      bytesOfLines (lines + 1 - (String.utf8EncodeChar c).count lineFeed) rest := by
  rw [bytesOfLines, String.length_utf8EncodeChar, count_utf8EncodeChar]
  split_ifs <;> rfl

theorem bytesOfLines_le (lines : Nat) (chars : List Char) :
    bytesOfLines lines chars ≤ (chars.flatMap String.utf8EncodeChar).length := by
  induction chars generalizing lines with
  | nil => cases lines <;> exact Nat.le_refl 0
  | cons c rest ih =>
    cases lines with
    | zero => exact Nat.zero_le _
    | succ lines =>
      rw [bytesOfLines_cons, List.flatMap_cons, List.length_append]
      exact Nat.add_le_add_left (ih _) _

/-- The first lines end where a line starts that has one line feed before it for each of them, when
the text has that many. -/
theorem startsLine_bytesOfLines {lines : Nat} {chars : List Char}
    (hlines : lines ≤ (chars.flatMap String.utf8EncodeChar).count lineFeed) :
    StartsLine (chars.flatMap String.utf8EncodeChar) lines (bytesOfLines lines chars) := by
  induction chars generalizing lines with
  | nil =>
    obtain rfl : lines = 0 := Nat.le_zero.mp hlines
    exact startsLine_zero _
  | cons c rest ih =>
    cases lines with
    | zero => exact startsLine_zero _
    | succ lines =>
      rw [List.flatMap_cons, List.count_append] at hlines
      have hleft : lines + 1 - (String.utf8EncodeChar c).count lineFeed ≤
          (rest.flatMap String.utf8EncodeChar).count lineFeed := by omega
      have hrest := ih hleft
      have hfeeds := count_utf8EncodeChar c
      rw [bytesOfLines_cons, List.flatMap_cons]
      refine ⟨?_, Or.inr ?_⟩
      · rw [feedsBefore_append, hrest.feeds_eq]
        split_ifs at hfeeds <;> omega
      · rcases hrest.follows with hzero | hfollows
        · -- nothing is left to look for, so that this character was the last line feed
          have hnone := hrest.feeds_eq
          rw [hzero] at hnone ⊢
          have hc : c = '\n' := by
            by_contra hne
            rw [hfeeds, if_neg hne] at hnone
            exact absurd hnone.symm (Nat.succ_ne_zero lines)
          subst hc
          exact ⟨Nat.one_pos, rfl⟩
        · exact hfollows.append _

/-- The lines before that of an offset end where its line starts. -/
theorem bytesOfLines_feedsBefore (source : String) (offset : Nat) :
    bytesOfLines (feedsBefore (bytesOf source) offset) source.toList =
      lineStart (bytesOf source) offset := by
  have hlines : feedsBefore (bytesOf source) offset ≤ (bytesOf source).count lineFeed :=
    (List.take_sublist _ _).count_le _
  rw [bytesOf_eq_flatMap] at hlines ⊢
  exact (startsLine_bytesOfLines hlines).lineStart_eq.symm

theorem offsetOf_le (source : String) (line column : Nat) :
    offsetOf source line column ≤ source.utf8ByteSize := Nat.min_le_right _ _

theorem offsetOf_lineOf_columnOf {source : String} {offset : Nat}
    (hoffset : offset ≤ source.utf8ByteSize) :
    offsetOf source (lineOf source offset) (columnOf source offset) = offset := by
  have hline : lineOf source offset - 1 = feedsBefore (bytesOf source) offset :=
    Nat.add_sub_cancel_left _ _
  have hcolumn : columnOf source offset - 1 = offset - lineStart (bytesOf source) offset :=
    Nat.add_sub_cancel _ _
  rw [offsetOf, hline, hcolumn, bytesOfLines_feedsBefore, Nat.add_sub_cancel' lineStart_le]
  exact Nat.min_eq_left hoffset

/-- The end of the first lines and a column add up in words of 64 bits. -/
theorem bytesOfLines_add_lt {source : String} (hsize : source.utf8ByteSize < 2 ^ 63)
    {column : Nat} (hcolumn : column < 2 ^ 63) (line : Nat) :
    bytesOfLines (line - 1) source.toList + (column - 1) < 2 ^ 64 := by
  have hstart : bytesOfLines (line - 1) source.toList ≤ source.utf8ByteSize := by
    rw [← length_bytesOf, bytesOf_eq_flatMap]
    exact bytesOfLines_le _ _
  omega

/-- The offset of a line and a column is the byte that they were told from, for every byte of the
text and for its end, and column 0 stands for column 1. Whatever the line and the column, the offset
does not pass the end of the text, and so the span that a fault in the text is pointed at lies
inside it. Words of 64 bits are enough to add up the offset, as long as the text and the column stay
below half of their range. -/
theorem offsets_map_back (source : String) :
    (∀ offset ≤ source.utf8ByteSize,
      offsetOf source (lineOf source offset) (columnOf source offset) = offset) ∧
    (∀ line, offsetOf source line 0 = offsetOf source line 1) ∧
    (∀ line column, offsetOf source line column ≤ source.utf8ByteSize) ∧
    (source.utf8ByteSize < 2 ^ 63 → ∀ line column, column < 2 ^ 63 →
      bytesOfLines (line - 1) source.toList + (column - 1) < 2 ^ 64) ∧
    ∀ file fault, ∃ span, (Failure.unparsable file source fault).span? = some span ∧
      span.offset = offsetOf source fault.position.line fault.position.column ∧
      span.offset + span.length ≤ source.utf8ByteSize := by
  refine ⟨fun offset hoffset => offsetOf_lineOf_columnOf hoffset, fun line => rfl,
    offsetOf_le source, fun hsize line column hcolumn => bytesOfLines_add_lt hsize hcolumn line, ?_⟩
  intro file fault
  exact ⟨_, rfl, rfl, offsetOf_le source _ _⟩

/-- The second byte of an accented letter and the end of a text with an empty line. -/
theorem offsets_map_back_accentAndBlank :
    let source := "é\n\nx"
    (1 ≤ source.utf8ByteSize ∧ lineOf source 1 = 1 ∧ columnOf source 1 = 2 ∧
      offsetOf source 1 2 = 1) ∧
    (5 ≤ source.utf8ByteSize ∧ lineOf source 5 = 3 ∧ columnOf source 5 = 2 ∧
      offsetOf source 3 2 = 5) ∧
    source.utf8ByteSize < 2 ^ 63 ∧ 2 ^ 63 - 1 < 2 ^ 63 ∧
      bytesOfLines (3 - 1) source.toList + (2 ^ 63 - 1 - 1) < 2 ^ 64 := by
  intro source
  obtain ⟨hback, -, -, hfits, -⟩ := offsets_map_back source
  have hsize : source.utf8ByteSize = 5 := by decide +kernel
  have hwithin : lineOf source 1 = 1 ∧ columnOf source 1 = 2 := by decide +kernel
  have hend : lineOf source 5 = 3 ∧ columnOf source 5 = 2 := by decide +kernel
  have hbackWithin := hback 1 (by omega)
  have hbackEnd := hback 5 (by omega)
  rw [hwithin.1, hwithin.2] at hbackWithin
  rw [hend.1, hend.2] at hbackEnd
  refine ⟨⟨by omega, hwithin.1, hwithin.2, hbackWithin⟩, ⟨by omega, hend.1, hend.2, hbackEnd⟩,
    by omega, by omega, hfits (by omega) 3 (2 ^ 63 - 1) (by omega)⟩

end EventOrder.CommandLine
