import EventOrder.Proofs.Json.Takes

/-!
# Trees read back

A tree is read back from its text, whatever blanks it is spaced with, when its numbers are whole
and fit 64 bits and it is nested no deeper than the reader goes.
-/

namespace EventOrder.Json

namespace Tree

/-- The items of a list after the first one stand after commas. -/
private theorem itemChars_eq (spacing : Spacing) (depth : Nat) (items : List Tree) :
    itemChars spacing depth items =
      separated (spacing.lineStart depth) false (items.map (·.chars spacing depth)) := by
  induction items with
  | nil => rfl
  | cons item items ih =>
    simp only [itemChars, List.map_cons, separated, ih, Bool.false_eq_true, if_false,
      List.append_assoc, List.cons_append, List.nil_append]

/-- A list is written as its items with commas between them. -/
theorem chars_list {spacing : Spacing} (hspacing : spacing.Blank) (depth : Nat)
    (items : List Tree) : ∃ blanks, AllBlank blanks ∧
      (Tree.list items).chars spacing depth =
        '[' :: (separated (spacing.lineStart (depth + 1)) true
          (items.map (·.chars spacing (depth + 1))) ++ blanks ++ [']']) := by
  cases items with
  | nil => exact ⟨[], allBlank_nil, rfl⟩
  | cons item items =>
    refine ⟨spacing.lineStart depth, hspacing.lineStart depth, ?_⟩
    simp only [chars, itemChars_eq, List.map_cons, separated, if_true, List.append_assoc,
      List.nil_append]

/-- The fields of an object after the first one stand after commas. -/
private theorem fieldChars_eq (spacing : Spacing) (depth : Nat) (fields : List (String × Tree)) :
    fieldChars spacing depth fields =
      separated (spacing.lineStart depth) false
        (fields.map fun field => memberChars spacing field.1 (field.2.chars spacing depth)) := by
  induction fields with
  | nil => rfl
  | cons field fields ih =>
    simp only [fieldChars, List.map_cons, separated, ih, Bool.false_eq_true, if_false, memberChars,
      List.append_assoc, List.cons_append, List.nil_append]

/-- An object is written as its fields with commas between them. -/
theorem chars_object {spacing : Spacing} (hspacing : spacing.Blank) (depth : Nat)
    (fields : List (String × Tree)) : ∃ blanks, AllBlank blanks ∧
      (Tree.object fields).chars spacing depth =
        '\x7b' :: (separated (spacing.lineStart (depth + 1)) true
          (fields.map fun field =>
            memberChars spacing field.1 (field.2.chars spacing (depth + 1))) ++
          blanks ++ ['\x7d']) := by
  cases fields with
  | nil => exact ⟨[], allBlank_nil, rfl⟩
  | cons field fields =>
    refine ⟨spacing.lineStart depth, hspacing.lineStart depth, ?_⟩
    simp only [chars, fieldChars_eq, List.map_cons, separated, if_true, memberChars,
      List.append_assoc, List.cons_append, List.nil_append]

/-- The value of a field is no longer than the object. -/
theorem length_field_le {spacing : Spacing} (hspacing : spacing.Blank) {most level : Nat}
    {fields : List (String × Tree)}
    (hmost : ((Tree.object fields).chars spacing level).length ≤ most) :
    ∀ field ∈ fields, (field.2.chars spacing (level + 1)).length ≤ most := by
  obtain ⟨blanks, -, hchars⟩ := chars_object hspacing level fields
  rw [hchars] at hmost
  obtain ⟨-, hlength⟩ := length_bracketed hmost
  intro field hfield
  exact Nat.le_trans (length_value_le _ _ _) (hlength _ (List.mem_map_of_mem hfield))

/-- A list is taken in when its items are taken in from their trees. -/
theorem takes_list {α : Type} {spacing : Spacing} (hspacing : spacing.Blank) {most depth : Nat}
    {element : Nat → Reader α} {tree : α → Tree} {values : List α} {level : Nat}
    (htakes : ∀ value ∈ values, ((tree value).chars spacing (level + 1)).length ≤ most →
      (element depth).Takes ((tree value).chars spacing (level + 1)) value)
    (hmost : ((Tree.list (values.map tree)).chars spacing level).length ≤ most) :
    (Reader.list most (depth + 1) element).Takes
      ((Tree.list (values.map tree)).chars spacing level) values := by
  obtain ⟨blanks, hblanks, hchars⟩ := chars_list hspacing level (values.map tree)
  rw [hchars] at hmost ⊢
  obtain ⟨hcount, hlength⟩ := length_bracketed hmost
  rw [List.map_map] at hcount hlength ⊢
  rw [List.length_map] at hcount
  refine Reader.takes_list (hspacing.lineStart (level + 1)) hblanks (fun value hvalue => ?_) hcount
  exact htakes value hvalue (hlength _ (List.mem_map_of_mem hvalue))

/-- A tree that is read back by a reader that opens at most so many lists and objects: its numbers
are whole and fit 64 bits, and it is nested no deeper. -/
inductive Readable : Nat → Tree → Prop
  | null {depth : Nat} : Readable depth .null
  | boolean {depth : Nat} (value : Bool) : Readable depth (.boolean value)
  | whole {depth : Nat} {value : Int} (hleast : -2 ^ 63 ≤ value) (hmost : value ≤ 2 ^ 64 - 1) :
    Readable depth (.ofInt value)
  | text {depth : Nat} (value : String) : Readable depth (.text value)
  | list {depth : Nat} {items : List Tree} (hitems : ∀ item ∈ items, Readable depth item) :
    Readable (depth + 1) (.list items)
  | object {depth : Nat} {fields : List (String × Tree)}
    (hfields : ∀ field ∈ fields, Readable depth field.2) : Readable (depth + 1) (.object fields)

/-- The letters of a name are read. -/
private theorem reads_letters (text rest : List Char) :
    (Reader.letters text).Reads (text ++ rest) () rest := by
  induction text with
  | nil => exact Reader.reads_pure () rest
  | cons c text ih =>
    refine (Reader.reads_peek _).bind ?_
    simp only [List.cons_append, List.head?_cons, if_true]
    exact (Reader.reads_skip c _).bind ih

/-- What is neither a list nor an object is taken in by any reader of trees. -/
private theorem takes_of_leaf {most depth : Nat} {c : Char} {text : List Char} {tree : Tree}
    (hblank : Cursor.isBlank c = false)
    (hbracket : c ≠ ']' ∧ c ≠ '[' ∧ c ≠ '\x7b')
    (h : ∀ rest, Delimits rest → Reader.tree.leaf.Reads (c :: (text ++ rest)) tree rest) :
    (Reader.tree most depth).Takes (c :: text) tree := by
  obtain ⟨hclosing, hlist, hobject⟩ := hbracket
  cases depth with
  | zero =>
    refine Reader.takes_byFirst hblank hclosing fun rest hrest => ?_
    simp only [hlist, hobject, decide_false, Bool.or_self, Bool.false_eq_true, if_false]
    exact h rest hrest
  | succ depth =>
    refine Reader.takes_byFirst hblank hclosing fun rest hrest => ?_
    simp only [hlist, hobject, if_false]
    exact h rest hrest

/-- A number is found where it is written. -/
private theorem reads_leaf_whole {value : Int} (hleast : -2 ^ 63 ≤ value)
    (hmost : value ≤ 2 ^ 64 - 1) {rest : List Char} (hrest : Delimits rest) :
    Reader.tree.leaf.Reads (wholeChars value ++ rest) (.ofInt value) rest := by
  obtain ⟨c, text, hchars, hcases⟩ := Reader.reads_wholeChars hrest hleast hmost
  have hfound : Reader.found.Reads (wholeChars value ++ rest) (.number (.whole value)) rest := by
    rw [hchars]
    refine (Reader.reads_peek _).bind ?_
    rcases hcases with ⟨rfl, hread⟩ | ⟨hdigit, hread⟩
    · exact (Reader.reads_skip '-' _).bind (hread.bind (Reader.reads_pure _ _))
    · obtain ⟨-, -, _, _, _, _, _, _, _⟩ := Reader.digit_ne hdigit
      simp only [List.cons_append, List.head?_cons, hdigit, if_true]
      exact hread.bind (Reader.reads_pure _ _)
  exact hfound.bind (Reader.reads_pure _ rest)

/-- A whole number is taken in. -/
private theorem takes_whole (most depth : Nat) {value : Int} (hleast : -2 ^ 63 ≤ value)
    (hmost : value ≤ 2 ^ 64 - 1) :
    (Reader.tree most depth).Takes (wholeChars value) (.ofInt value) := by
  have hempty : Delimits [] := fun c hc => absurd hc (by simp)
  obtain ⟨c, text, hchars, hcases⟩ := Reader.reads_wholeChars hempty hleast hmost
  have hread {rest : List Char} (hrest : Delimits rest) :=
    reads_leaf_whole hleast hmost hrest
  rw [hchars] at hread ⊢
  rcases hcases with ⟨rfl, -⟩ | ⟨hdigit, -⟩
  · exact takes_of_leaf rfl (by decide) fun rest hrest => hread hrest
  · obtain ⟨hblank, hclosing, -, hlist, hobject, -⟩ := Reader.digit_ne hdigit
    exact takes_of_leaf hblank ⟨hclosing, hlist, hobject⟩ fun rest hrest => hread hrest

variable {spacing : Spacing}

/-- A name stands for what it says. -/
private theorem reads_leaf_named (rest : List Char) :
    Reader.tree.leaf.Reads ('n' :: (['u', 'l', 'l'] ++ rest)) .null rest ∧
      Reader.tree.leaf.Reads ('t' :: (['r', 'u', 'e'] ++ rest)) (.boolean true) rest ∧
      Reader.tree.leaf.Reads ('f' :: (['a', 'l', 's', 'e'] ++ rest)) (.boolean false) rest := by
  have hfound {c : Char} (text : List Char) (found : Found) :
      (do Reader.skip; Reader.letters text; pure found : Reader Found).Reads
        (c :: (text ++ rest)) found rest :=
    (Reader.reads_skip c _).bind ((reads_letters text rest).bind (Reader.reads_pure found rest))
  refine ⟨?_, ?_, ?_⟩
  · exact ((Reader.reads_peek _).bind (hfound ['u', 'l', 'l'] .null)).bind
      (Reader.reads_pure _ rest)
  · exact ((Reader.reads_peek _).bind (hfound ['r', 'u', 'e'] (.boolean true))).bind
      (Reader.reads_pure _ rest)
  · exact ((Reader.reads_peek _).bind (hfound ['a', 'l', 's', 'e'] (.boolean false))).bind
      (Reader.reads_pure _ rest)

/-- A tree is read back from its text. -/
theorem Readable.takes (hspacing : spacing.Blank) {depth : Nat} {tree : Tree}
    (h : Readable depth tree) {most level : Nat}
    (hmost : (tree.chars spacing level).length ≤ most) :
    (Reader.tree most depth).Takes (tree.chars spacing level) tree := by
  induction h generalizing level with
  | null =>
    exact takes_of_leaf rfl (by decide) fun rest _ => (reads_leaf_named rest).1
  | boolean value =>
    cases value with
    | true => exact takes_of_leaf rfl (by decide) fun rest _ => (reads_leaf_named rest).2.1
    | false => exact takes_of_leaf rfl (by decide) fun rest _ => (reads_leaf_named rest).2.2
  | whole hleast hlargest => exact takes_whole most _ hleast hlargest
  | text value =>
    have hfound (rest : List Char) :
        Reader.found.Reads (textChars value ++ rest) (.text value) rest :=
      (Reader.reads_peek _).bind ((Reader.reads_quotedText value rest).bind
        (Reader.reads_pure _ rest))
    exact takes_of_leaf rfl (by decide) fun rest _ =>
      (hfound rest).bind (Reader.reads_pure _ rest)
  | @list depth items hitems ih =>
    obtain ⟨blanks, hblanks, hchars⟩ := chars_list hspacing level items
    rw [hchars] at hmost ⊢
    obtain ⟨hcount, hlength⟩ := length_bracketed hmost
    rw [List.length_map] at hcount
    have hitemsTaken (item : Tree) (hitem : item ∈ items) :
        (Reader.tree most depth).Takes (item.chars spacing (level + 1)) item :=
      ih item hitem (hlength _ (List.mem_map_of_mem hitem))
    exact Reader.takes_bracketed Reader.closes_list rfl rfl (by decide) fun rest =>
      (Reader.reads_elements (hspacing.lineStart (level + 1)) hblanks hitemsTaken hcount true []
        rest).map Tree.list
  | @object depth fields hfields ih =>
    have hfieldsTaken (field : String × Tree) (hfield : field ∈ fields) :
        (Reader.tree most depth).Takes (field.2.chars spacing (level + 1)) field.2 :=
      ih field hfield (length_field_le hspacing hmost field hfield)
    obtain ⟨blanks, hblanks, hchars⟩ := chars_object hspacing level fields
    rw [hchars] at hmost ⊢
    obtain ⟨hcount, -⟩ := length_bracketed hmost
    rw [List.length_map] at hcount
    exact Reader.takes_bracketed Reader.closes_object rfl rfl (by decide) fun rest =>
      (Reader.reads_entries hspacing (hspacing.lineStart (level + 1)) hblanks hfieldsTaken hcount
        true [] rest).map Tree.object

end Tree

end EventOrder.Json
