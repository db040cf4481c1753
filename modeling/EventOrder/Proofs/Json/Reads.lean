import EventOrder.Json.Value

/-!
# What readers leave

A reader that takes a value off the front of a text leaves the rest of it. The judgement says which
value and which rest; the position that the cursor moves to is left open, because no value depends
on it. There is one rule for each way in which readers are put together.
-/

namespace EventOrder.Json

namespace Reader

variable {α β : Type}

/-- The reader takes the value off the front of the text and leaves the rest. -/
def Reads (reader : Reader α) (text : List Char) (value : α) (rest : List Char) : Prop :=
  ∀ position, ∃ after, reader ⟨text, position⟩ = .done value ⟨rest, after⟩

/-- Nothing is read. -/
theorem reads_pure (value : α) (text : List Char) :
    (pure value : Reader α).Reads text value text :=
  fun position => ⟨position, rfl⟩

/-- One value is read and then what depends on it. -/
theorem Reads.bind {first : Reader α} {next : α → Reader β} {text between rest : List Char}
    {value : α} {last : β} (hfirst : first.Reads text value between)
    (hnext : (next value).Reads between last rest) : (first >>= next).Reads text last rest := by
  intro position
  obtain ⟨middle, hmiddle⟩ := hfirst position
  obtain ⟨after, hafter⟩ := hnext middle
  refine ⟨after, ?_⟩
  change Reader.bind first next ⟨text, position⟩ = _
  simp only [Reader.bind, hmiddle, hafter]

/-- What was read is turned into something else. -/
theorem Reads.map {reader : Reader α} {text rest : List Char} {value : α}
    (h : reader.Reads text value rest) (f : α → β) :
    (do return f (← reader) : Reader β).Reads text (f value) rest :=
  h.bind (reads_pure _ _)

/-- The next character is seen and stays. -/
theorem reads_peek (text : List Char) : peek.Reads text text.head? text :=
  fun position => ⟨position, rfl⟩

/-- The next character is passed over. -/
theorem reads_skip (c : Char) (rest : List Char) : skip.Reads (c :: rest) () rest :=
  fun position => ⟨position.past c, rfl⟩

/-- A value that is accepted is read. -/
theorem reads_ofExcept {result : Except ShapeFault α} {value : α} (h : result = .ok value)
    (text : List Char) : (ofExcept result).Reads text value text := by
  subst h
  exact reads_pure value text

/-- It makes no difference where a misfit would be reported. -/
theorem Reads.placed {reader : Reader α} {text rest : List Char} {value : α}
    (h : reader.Reads text value rest) : (placed reader).Reads text value rest := by
  intro position
  obtain ⟨after, hafter⟩ := h position
  exact ⟨after, by simp only [Reader.placed, hafter]⟩

/-- The end of a bracketed value is found when there is nothing but blanks before it. -/
def Closes (close : Cursor → Cursor × Option Fault) (bracket : Char) : Prop :=
  ∀ rest position, ∃ after, close ⟨bracket :: rest, position⟩ = (⟨rest, after⟩, none)

/-- The inside of a bracketed value is read up to its end. -/
theorem Reads.enclosed {close : Cursor → Cursor × Option Fault} {bracket : Char}
    (hclose : Closes close bracket) {inside : Reader α} {text rest : List Char} {value : α}
    (h : inside.Reads text value (bracket :: rest)) :
    (enclosed close inside).Reads text value rest := by
  intro position
  obtain ⟨middle, hmiddle⟩ := h position
  obtain ⟨after, hafter⟩ := hclose rest middle
  exact ⟨after, by simp only [Reader.enclosed, hmiddle, hafter]⟩

/-- A bracketed value is read when brackets may still be opened. -/
theorem Reads.entered {close : Cursor → Cursor × Option Fault} {bracket : Char}
    (hclose : Closes close bracket) {inside : Nat → Reader α} {depth : Nat} {c : Char}
    {text rest : List Char} {value : α}
    (h : (inside depth).Reads text value (bracket :: rest)) :
    (entered (depth + 1) close inside).Reads (c :: text) value rest :=
  Reads.enclosed hclose ((reads_skip c text).bind h)

end Reader

open Reader

/-- Nothing but blanks. -/
def AllBlank (text : List Char) : Prop := ∀ c ∈ text, Cursor.isBlank c = true

/-- There is nothing else in an empty text. -/
theorem allBlank_nil : AllBlank [] := fun _ hmem => absurd hmem List.not_mem_nil

/-- Blanks are passed over up to the first character that is none. -/
theorem afterBlanks_append {blanks : List Char} (hblanks : AllBlank blanks) {c : Char}
    (hc : Cursor.isBlank c = false) (rest : List Char) (position : Position) :
    ∃ after, Cursor.afterBlanks position (blanks ++ c :: rest) = ⟨c :: rest, after⟩ := by
  induction blanks generalizing position with
  | nil => exact ⟨position, by simp [Cursor.afterBlanks, hc]⟩
  | cons blank blanks ih =>
    have hblank : Cursor.isBlank blank = true := hblanks blank List.mem_cons_self
    obtain ⟨after, hafter⟩ :=
      ih (fun other hother => hblanks other (List.mem_cons_of_mem _ hother)) (position.past blank)
    exact ⟨after, by simp only [List.cons_append, Cursor.afterBlanks, hblank, if_true, hafter]⟩

/-- Blanks at the end of a text are all passed over. -/
theorem rest_afterBlanks {blanks : List Char} (hblanks : AllBlank blanks) (position : Position) :
    (Cursor.afterBlanks position blanks).rest = [] := by
  induction blanks generalizing position with
  | nil => rfl
  | cons blank blanks ih =>
    have hblank : Cursor.isBlank blank = true := hblanks blank List.mem_cons_self
    simp only [Cursor.afterBlanks, hblank, if_true]
    exact ih (fun other hother => hblanks other (List.mem_cons_of_mem _ hother)) _

namespace Reader

variable {α : Type} {blanks : List Char} {c : Char} {rest : List Char}

/-- The next character after blanks is seen and stays. -/
theorem reads_peekPastBlanks (hblanks : AllBlank blanks) (hc : Cursor.isBlank c = false) :
    peekPastBlanks.Reads (blanks ++ c :: rest) (some c) (c :: rest) := by
  intro position
  obtain ⟨after, hafter⟩ := afterBlanks_append hblanks hc rest position
  exact ⟨after, by simp only [peekPastBlanks, Cursor.skipBlanks, hafter, List.head?_cons]⟩

/-- A value is read by its first character. -/
theorem reads_byFirst (hblanks : AllBlank blanks) (hc : Cursor.isBlank c = false)
    {read : Char → Reader α} {value : α} {last : List Char}
    (h : (read c).Reads (c :: rest) value last) :
    (byFirst read).Reads (blanks ++ c :: rest) value last :=
  (reads_peekPastBlanks hblanks hc).bind h

/-- A list ends with its bracket. -/
theorem closes_list : Closes closeList ']' := fun _ position => ⟨position.past ']', rfl⟩

/-- An object ends with its bracket. -/
theorem closes_object : Closes closeObject '\x7d' := fun _ position => ⟨position.past '\x7d', rfl⟩

/-- No element follows the last one. -/
theorem reads_hasElement_end (hblanks : AllBlank blanks) (first : Bool) :
    (hasElement first).Reads (blanks ++ ']' :: rest) false (']' :: rest) :=
  (reads_peekPastBlanks hblanks rfl).bind (reads_pure false _)

/-- An element follows an opening bracket or a comma. -/
theorem reads_hasElement (hblanks : AllBlank blanks) (hc : Cursor.isBlank c = false)
    (hbracket : c ≠ ']') (first : Bool) (rest : List Char) :
    (hasElement first).Reads ((if first then [] else [',']) ++ blanks ++ c :: rest) true
      (c :: rest) := by
  cases first with
  | true =>
    refine (reads_peekPastBlanks hblanks hc).bind ?_
    simp only [if_true]
    exact reads_pure true _
  | false =>
    refine (reads_peekPastBlanks allBlank_nil (c := ',') rfl).bind ?_
    simp only [Bool.false_eq_true, if_false]
    refine (reads_skip ',' _).bind ((reads_peekPastBlanks hblanks hc).bind ?_)
    simp only
    exact reads_pure true _

/-- A colon stands after a key. -/
theorem reads_colon : colon.Reads (':' :: rest) () rest :=
  (reads_peekPastBlanks allBlank_nil (c := ':') rfl).bind (reads_skip ':' rest)

/-- No field follows the last one. -/
theorem reads_nextKey_end (hblanks : AllBlank blanks) (first : Bool) :
    (nextKey first).Reads (blanks ++ '\x7d' :: rest) none ('\x7d' :: rest) :=
  (reads_peekPastBlanks hblanks rfl).bind (reads_pure none _)

end Reader

end EventOrder.Json
