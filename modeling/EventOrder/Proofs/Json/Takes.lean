import EventOrder.Json.Tree
import EventOrder.Proofs.Json.Scalars

/-!
# Values read back

A reader takes in the text of a value when it reads the value off it, whatever blanks stand before
and whatever text follows that no number goes on with. The items of a list and the fields of an
object are read back one after the other, so a tree is read back from its text when its whole
numbers fit 64 bits and it is nested no deeper than the reader goes.
-/

namespace EventOrder.Json

namespace Reader

variable {α β : Type}

/-- The reader takes in a text as a value. -/
structure Takes (reader : Reader α) (text : List Char) (value : α) : Prop where
  /-- The text starts a value: neither with a blank nor with the end of a list. -/
  opens : ∃ c rest, text = c :: rest ∧ Cursor.isBlank c = false ∧ c ≠ ']'
  /-- The value is read off the text. -/
  reads : ∀ blanks rest, AllBlank blanks → Delimits rest →
    reader.Reads (blanks ++ text ++ rest) value rest

/-- A text is taken in by its first character. -/
theorem takes_byFirst {read : Char → Reader α} {c : Char} {text : List Char} {value : α}
    (hblank : Cursor.isBlank c = false) (hbracket : c ≠ ']')
    (h : ∀ rest, Delimits rest → (read c).Reads (c :: (text ++ rest)) value rest) :
    (byFirst read).Takes (c :: text) value := by
  refine ⟨⟨c, text, rfl, hblank, hbracket⟩, fun blanks rest hblanks hrest => ?_⟩
  rw [List.append_assoc, List.cons_append]
  exact reads_byFirst hblanks hblank (h rest hrest)

/-- A bracketed text is taken in when its inside is read up to the bracket that ends it. -/
theorem takes_bracketed {read : Char → Reader α} {close : Cursor → Cursor × Option Fault}
    {c bracket : Char} (hclose : Closes close bracket) {inside : Reader α}
    (hread : read c = enclosed close (do skip; inside)) (hblank : Cursor.isBlank c = false)
    (hbracket : c ≠ ']') {text : List Char} {value : α}
    (h : ∀ rest, inside.Reads (text ++ bracket :: rest) value (bracket :: rest)) :
    (byFirst read).Takes (c :: (text ++ [bracket])) value := by
  refine takes_byFirst hblank hbracket fun rest _ => ?_
  rw [hread, List.append_assoc]
  exact .enclosed hclose ((reads_skip c _).bind (h rest))

/-- What was taken in is turned into something else. -/
theorem Takes.bind {reader : Reader α} {next : α → Reader β} {text : List Char} {value : α}
    {last : β} (h : reader.Takes text value) (hnext : ∀ rest, (next value).Reads rest last rest) :
    (reader >>= next).Takes text last :=
  ⟨h.opens, fun blanks rest hblanks hrest => (h.reads blanks rest hblanks hrest).bind (hnext rest)⟩

/-- It makes no difference where a misfit would be reported. -/
theorem Takes.placed {reader : Reader α} {text : List Char} {value : α}
    (h : reader.Takes text value) : (Reader.placed reader).Takes text value :=
  ⟨h.opens, fun blanks rest hblanks hrest => (h.reads blanks rest hblanks hrest).placed⟩

/-- A string is taken in. -/
theorem takes_text (expected text : String) : (Reader.text expected).Takes (textChars text) text :=
  takes_byFirst rfl (by decide) fun rest _ => reads_quotedText text rest

/-- No digit is a bracket, a quote or a blank. -/
theorem digit_ne {c : Char} (h : c.isDigit = true) :
    Cursor.isBlank c = false ∧ c ≠ ']' ∧ c ≠ '-' ∧ c ≠ '[' ∧ c ≠ '\x7b' ∧ c ≠ '"' ∧ c ≠ 'n' ∧
      c ≠ 't' ∧ c ≠ 'f' := by
  refine ⟨?_, ?_, ?_, ?_, ?_, ?_, ?_, ?_, ?_⟩
  · by_contra hblank
    simp only [Cursor.isBlank, Bool.not_eq_false, Bool.or_eq_true, decide_eq_true_eq] at hblank
    rcases hblank with ((rfl | rfl) | rfl) | rfl <;> exact absurd h (by decide)
  all_goals
    rintro rfl
    exact absurd h (by decide)

/-- A whole number is taken in. -/
theorem takes_numeral (expected : String) {value : Int} (hleast : -2 ^ 63 ≤ value)
    (hmost : value ≤ 2 ^ 64 - 1) : (numeral expected).Takes (wholeChars value) (.whole value) := by
  have hempty : Delimits [] := fun c hc => absurd hc (by simp)
  obtain ⟨c, text, hchars, hcases⟩ := reads_wholeChars hempty hleast hmost
  have hopens : Cursor.isBlank c = false ∧ c ≠ ']' := by
    rcases hcases with ⟨rfl, -⟩ | ⟨hdigit, -⟩
    · exact ⟨rfl, by decide⟩
    · exact ⟨(digit_ne hdigit).1, (digit_ne hdigit).2.1⟩
  rw [hchars]
  refine takes_byFirst hopens.1 hopens.2 fun rest hrest => ?_
  obtain ⟨other, tail, hagain, hcases⟩ := reads_wholeChars hrest hleast hmost
  obtain ⟨rfl, rfl⟩ := List.cons.inj (hchars.symm.trans hagain)
  rcases hcases with ⟨rfl, hread⟩ | ⟨hdigit, hread⟩
  · exact (reads_skip '-' _).bind hread
  · simp only [(digit_ne hdigit).2.2.1, hdigit, if_false, if_true]
    exact hread

/-- An unsigned 64-bit number is taken in. -/
theorem takes_unsigned {value : Nat} (hvalue : value < 2 ^ 64) :
    unsigned.Takes (wholeChars value) value := by
  refine ((takes_numeral "u64" (by omega) (by omega)).bind fun rest => ?_).placed
  refine reads_ofExcept ?_ rest
  have hrange : (0 : Int) ≤ value ∧ (value : Int) ≤ 2 ^ 64 - 1 := by omega
  simp only [asUnsigned, inRange, hrange, and_self, if_true]
  rfl

/-- A signed 64-bit number is one of its range. -/
theorem asSigned_toInt (value : Int64) : asSigned (.whole value.toInt) = .ok value := by
  have hleast := value.le_toInt
  have hmost := value.toInt_lt
  have hrange : -2 ^ 63 ≤ value.toInt ∧ value.toInt ≤ 2 ^ 63 - 1 := by omega
  simp only [asSigned, inRange, hrange, and_self, if_true]
  exact congrArg Except.ok (Int64.ofInt_toInt value)

/-- A signed 64-bit number is taken in. -/
theorem takes_signed (value : Int64) : signed.Takes (wholeChars value.toInt) value := by
  have hleast := value.le_toInt
  have hmost := value.toInt_lt
  refine ((takes_numeral "i64" (by omega) (by omega)).bind fun rest => ?_).placed
  exact reads_ofExcept (asSigned_toInt value) rest

end Reader

/-- Only blanks are put between the parts of a value. -/
structure Spacing.Blank (spacing : Spacing) : Prop where
  /-- Blanks stand before an item. -/
  lineStart : ∀ depth, AllBlank (spacing.lineStart depth)
  /-- Blanks stand after a colon. -/
  afterColon : AllBlank spacing.afterColon

/-- Indented lines put only blanks. -/
theorem Spacing.blank_indented : Spacing.indented.Blank := by
  refine ⟨fun depth c hc => ?_, fun c hc => ?_⟩
  · rcases List.mem_cons.mp hc with rfl | hc
    · rfl
    · rw [List.eq_of_mem_replicate hc]
      rfl
  · rw [List.mem_singleton.mp hc]
    rfl

/-- A field of an object, its value written already. -/
def memberChars (spacing : Spacing) (key : String) (value : List Char) : List Char :=
  textChars key ++ ':' :: (spacing.afterColon ++ value)

/-- A field is no shorter than its value. -/
theorem length_value_le (spacing : Spacing) (key : String) (value : List Char) :
    value.length ≤ (memberChars spacing key value).length := by
  simp only [memberChars, List.length_append, List.length_cons]
  omega

/-- Texts with commas between them, each after blanks of its own. -/
def separated (lineStart : List Char) : Bool → List (List Char) → List Char
  | _, [] => []
  | first, text :: texts =>
    (if first then [] else [',']) ++ lineStart ++ text ++ separated lineStart false texts

/-- Each text takes its characters, and each but the first a comma. -/
private theorem length_separated (lineStart : List Char) (texts : List (List Char))
    (first : Bool) :
    texts.length ≤ (separated lineStart first texts).length + first.toNat ∧
      ∀ text ∈ texts, text.length ≤ (separated lineStart first texts).length := by
  induction texts generalizing first with
  | nil => exact ⟨Nat.zero_le _, fun text hmem => absurd hmem List.not_mem_nil⟩
  | cons other texts ih =>
    obtain ⟨hcount, hlength⟩ := ih false
    simp only [separated, List.length_append, List.length_cons, Bool.toNat_false] at hcount ⊢
    constructor
    · cases first with
      | true =>
        simp only [Bool.toNat_true]
        omega
      | false =>
        simp only [Bool.false_eq_true, if_false, List.length_singleton, Bool.toNat_false]
        omega
    · intro text hmem
      rcases List.mem_cons.mp hmem with rfl | hmem
      · omega
      · have hrest := hlength text hmem
        omega

/-- So what stands between brackets has fewer items than characters, and no item has more. -/
theorem length_bracketed {lineStart blanks : List Char} {texts : List (List Char)} {c d : Char}
    {most : Nat}
    (hmost : (c :: (separated lineStart true texts ++ blanks ++ [d])).length ≤ most) :
    texts.length < most ∧ ∀ text ∈ texts, text.length ≤ most := by
  obtain ⟨hcount, hlength⟩ := length_separated lineStart texts true
  simp only [List.length_cons, List.length_append, List.length_nil, Bool.toNat_true]
    at hmost hcount
  refine ⟨by omega, fun text hmem => ?_⟩
  have hitem := hlength text hmem
  omega

/-- No number goes on with a blank. -/
theorem delimits_of_isBlank {c : Char} (hc : Cursor.isBlank c = true) (rest : List Char) :
    Delimits (c :: rest) := by
  rintro other hother
  obtain rfl := Option.some.inj hother
  simp only [Cursor.isBlank, Bool.or_eq_true, decide_eq_true_eq] at hc
  rcases hc with ((rfl | rfl) | rfl) | rfl <;> decide

/-- Nor does it go on with blanks and the end of a list or an object. -/
theorem delimits_blanks {blanks : List Char} (hblanks : AllBlank blanks) {rest : List Char}
    (hrest : Delimits rest) : Delimits (blanks ++ rest) := by
  cases blanks with
  | nil => exact hrest
  | cons blank blanks => exact delimits_of_isBlank (hblanks blank List.mem_cons_self) _

/-- Nor with what follows an item. -/
theorem delimits_separated {lineStart blanks : List Char} (hblanks : AllBlank blanks)
    {rest : List Char} (hrest : Delimits rest) (texts : List (List Char)) :
    Delimits (separated lineStart false texts ++ blanks ++ rest) := by
  cases texts with
  | nil => exact delimits_blanks hblanks hrest
  | cons text texts =>
    rintro other hother
    obtain rfl : ',' = other := Option.some.inj hother
    decide

/-- Brackets end a number. -/
theorem delimits_bracket {c : Char} (hc : c = ']' ∨ c = '\x7d') (rest : List Char) :
    Delimits (c :: rest) := by
  rintro other hother
  obtain rfl := Option.some.inj hother
  rcases hc with rfl | rfl <;> decide

namespace Reader

variable {α β : Type} {lineStart blanks : List Char}

/-- The items of a list are read back in order. -/
theorem reads_elements {element : Reader α} {text : α → List Char} (hline : AllBlank lineStart)
    (hblanks : AllBlank blanks) {values : List α}
    (htakes : ∀ value ∈ values, element.Takes (text value) value) {most : Nat}
    (hmost : values.length < most) (first : Bool) (soFar : List α) (rest : List Char) :
    (elements element most first soFar).Reads
      (separated lineStart first (values.map text) ++ blanks ++ ']' :: rest)
      (soFar.reverse ++ values) (']' :: rest) := by
  induction values generalizing most first soFar with
  | nil =>
    obtain ⟨most, rfl⟩ := Nat.exists_eq_succ_of_ne_zero (Nat.ne_of_gt hmost)
    rw [List.append_nil]
    exact (reads_hasElement_end hblanks first).bind (reads_pure _ _)
  | cons value values ih =>
    obtain ⟨most, rfl⟩ := Nat.exists_eq_succ_of_ne_zero (Nat.ne_of_gt (Nat.zero_lt_of_lt hmost))
    obtain ⟨⟨c, tail, htext, hblank, hbracket⟩, hreads⟩ := htakes value List.mem_cons_self
    have hrest := ih (fun other hother => htakes other (List.mem_cons_of_mem _ hother))
      (Nat.lt_of_succ_lt_succ hmost) false (value :: soFar)
    have hfollows : Delimits
        (separated lineStart false (values.map text) ++ blanks ++ ']' :: rest) :=
      delimits_separated hblanks (delimits_bracket (Or.inl rfl) rest) _
    have hvalue := hreads [] _ allBlank_nil hfollows
    have hfirst := reads_hasElement hline hblank hbracket first
      (tail ++ (separated lineStart false (values.map text) ++ blanks ++ ']' :: rest))
    rw [show soFar.reverse ++ value :: values = (value :: soFar).reverse ++ values by simp]
    simp only [htext, List.append_assoc, List.nil_append, List.cons_append] at hvalue hrest
    simp only [List.map_cons, separated, htext, List.append_assoc, List.cons_append] at hfirst ⊢
    refine hfirst.bind ?_
    simp only [if_true]
    exact hvalue.bind hrest

/-- A list is taken in when its items are. -/
theorem takes_list {element : Nat → Reader α} {text : α → List Char} {depth most : Nat}
    (hline : AllBlank lineStart) (hblanks : AllBlank blanks) {values : List α}
    (htakes : ∀ value ∈ values, (element depth).Takes (text value) value)
    (hmost : values.length < most) :
    (list most (depth + 1) element).Takes
      ('[' :: (separated lineStart true (values.map text) ++ blanks ++ [']'])) values := by
  exact takes_bracketed closes_list rfl rfl (by decide) fun rest =>
    reads_elements hline hblanks htakes hmost true [] rest

/-- The key of the next field is read after an opening bracket or a comma. -/
theorem reads_nextKey (spacing : Spacing) (hline : AllBlank lineStart) (first : Bool)
    (key : String) (value : List Char) (texts : List (List Char)) (rest : List Char) :
    (nextKey first).Reads
      (separated lineStart first (memberChars spacing key value :: texts) ++ blanks ++
        '\x7d' :: rest)
      (some key)
      (':' :: (spacing.afterColon ++ value ++
        (separated lineStart false texts ++ blanks ++ '\x7d' :: rest))) := by
  have hkey := (reads_quotedText key (':' :: (spacing.afterColon ++ value ++
    (separated lineStart false texts ++ blanks ++ '\x7d' :: rest)))).map some
  simp only [textChars, List.append_assoc, List.cons_append, List.nil_append] at hkey
  simp only [separated, memberChars, textChars, List.append_assoc, List.cons_append,
    List.nil_append]
  cases first with
  | true =>
    refine (reads_peekPastBlanks hline (c := '"') rfl).bind ?_
    simp only [if_true]
    exact hkey
  | false =>
    refine (reads_peekPastBlanks allBlank_nil (c := ',') rfl).bind ?_
    simp only [Bool.false_eq_true, if_false]
    refine (reads_skip ',' _).bind ((reads_peekPastBlanks hline (c := '"') rfl).bind ?_)
    exact hkey

/-- After its key, the value of a field is read, and then what depends on it. -/
theorem Takes.reads_member {reader : Reader α} {next : α → Reader β} {spacing : Spacing}
    (hspacing : spacing.Blank) (hblanks : AllBlank blanks) {text : List Char} {value : α}
    (h : reader.Takes text value) {texts : List (List Char)} {rest left : List Char} {last : β}
    (hnext : (next value).Reads (separated lineStart false texts ++ blanks ++ '\x7d' :: rest) last
      left) :
    (do colon; let item ← reader; next item : Reader β).Reads
      (':' :: (spacing.afterColon ++ text ++
        (separated lineStart false texts ++ blanks ++ '\x7d' :: rest))) last left := by
  have hfollows : Delimits (separated lineStart false texts ++ blanks ++ '\x7d' :: rest) :=
    delimits_separated hblanks (delimits_bracket (Or.inr rfl) rest) texts
  exact reads_colon.bind ((h.reads _ _ hspacing.afterColon hfollows).bind hnext)

/-- The fields of an object are read back in order. -/
theorem reads_entries {value : Reader α} {text : α → List Char} {spacing : Spacing}
    (hspacing : spacing.Blank) (hline : AllBlank lineStart) (hblanks : AllBlank blanks)
    {fields : List (String × α)} (htakes : ∀ field ∈ fields, value.Takes (text field.2) field.2)
    {most : Nat} (hmost : fields.length < most) (first : Bool) (soFar : List (String × α))
    (rest : List Char) :
    (entries value most first soFar).Reads
      (separated lineStart first
          (fields.map fun field => memberChars spacing field.1 (text field.2)) ++
        blanks ++ '\x7d' :: rest)
      (soFar.reverse ++ fields) ('\x7d' :: rest) := by
  induction fields generalizing most first soFar with
  | nil =>
    obtain ⟨most, rfl⟩ := Nat.exists_eq_succ_of_ne_zero (Nat.ne_of_gt hmost)
    rw [List.append_nil]
    exact (reads_nextKey_end hblanks first).bind (reads_pure _ _)
  | cons field fields ih =>
    obtain ⟨most, rfl⟩ := Nat.exists_eq_succ_of_ne_zero (Nat.ne_of_gt (Nat.zero_lt_of_lt hmost))
    obtain ⟨key, item⟩ := field
    have hrest := ih (fun other hother => htakes other (List.mem_cons_of_mem _ hother))
      (Nat.lt_of_succ_lt_succ hmost) false ((key, item) :: soFar)
    rw [show soFar.reverse ++ (key, item) :: fields =
      ((key, item) :: soFar).reverse ++ fields by simp]
    exact (reads_nextKey spacing hline first key _ _ rest).bind
      ((htakes (key, item) List.mem_cons_self).reads_member hspacing hblanks hrest)

end Reader

end EventOrder.Json
