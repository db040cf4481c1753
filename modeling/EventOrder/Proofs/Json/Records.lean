import EventOrder.Json.Record
import EventOrder.Proofs.Json.Trees

/-!
# Records read back

A record is read back from an object whose fields it knows: each of them fills the draft further, in
the order in which they are written, and what the last draft makes is the record.
-/

namespace EventOrder.Json

variable {δ α : Type} {spacing : Spacing}

/-- The fields of an object, one after the other, make one draft from another: each is declared,
not filled yet, and its value is taken in. -/
inductive Fills (spacing : Spacing) (level : Nat) (declared : List (Field δ)) (depth : Nat) :
    δ → List (String × Tree) → δ → Prop
  | done (draft : δ) : Fills spacing level declared depth draft [] draft
  | field {draft next last : δ} {key : String} {value : Tree} {rest : List (String × Tree)}
      {field : Field δ} (hfind : declared.find? (·.name == key) = some field)
      (hunfilled : field.isFilled draft = false)
      (htakes : (field.read depth draft).Takes (value.chars spacing level) next)
      (hrest : Fills spacing level declared depth next rest last) :
      Fills spacing level declared depth draft ((key, value) :: rest) last

/-- The fields of an object are read back into a draft. -/
theorem Fills.reads (hspacing : spacing.Blank) {level : Nat} {declared : List (Field δ)}
    {depth : Nat} {draft last : δ} {fields : List (String × Tree)}
    (h : Fills spacing level declared depth draft fields last) {lineStart blanks : List Char}
    (hline : AllBlank lineStart) (hblanks : AllBlank blanks) {steps : Nat}
    (hsteps : fields.length < steps) (most : Nat) (first : Bool) (rest : List Char) :
    (Reader.fieldsByName most depth declared steps first draft).Reads
      (separated lineStart first
          (fields.map fun field => memberChars spacing field.1 (field.2.chars spacing level)) ++
        blanks ++ '\x7d' :: rest)
      last ('\x7d' :: rest) := by
  induction h generalizing steps first with
  | done draft =>
    obtain ⟨steps, rfl⟩ := Nat.exists_eq_succ_of_ne_zero (Nat.ne_of_gt hsteps)
    exact (Reader.reads_nextKey_end hblanks first).bind (Reader.reads_pure _ _)
  | @field draft next last key value fields field hfind hunfilled htakes _ ih =>
    obtain ⟨steps, rfl⟩ := Nat.exists_eq_succ_of_ne_zero (Nat.ne_of_gt (Nat.zero_lt_of_lt hsteps))
    have hrest := ih (Nat.lt_of_succ_lt_succ hsteps) false
    refine (Reader.reads_nextKey spacing hline first key _ _ rest).bind ?_
    simp only [hfind, hunfilled, Bool.false_eq_true, if_false]
    exact htakes.reads_member hspacing hblanks hrest

/-- A record is read back from an object that fills its draft. -/
theorem Fills.takes_record (hspacing : spacing.Blank) {level depth most : Nat}
    {shape : RecordShape δ α} {last : δ} {fields : List (String × Tree)} {value : α}
    (h : Fills spacing (level + 1) shape.fields depth shape.draft fields last)
    (hfinish : shape.finish last = .ok value)
    (hmost : ((Tree.object fields).chars spacing level).length ≤ most) :
    (Reader.record most (depth + 1) shape).Takes ((Tree.object fields).chars spacing level)
      value := by
  obtain ⟨blanks, hblanks, hchars⟩ := Tree.chars_object hspacing level fields
  rw [hchars] at hmost ⊢
  obtain ⟨hcount, -⟩ := length_bracketed hmost
  rw [List.length_map] at hcount
  exact Reader.takes_bracketed Reader.closes_object rfl rfl (by decide) fun rest =>
    (h.reads hspacing (hspacing.lineStart (level + 1)) hblanks hcount most true rest).bind
      (Reader.reads_ofExcept hfinish _)

/-- A whole text is read when its value is taken in; blanks may follow. -/
theorem readAll_of_takes {reader : Nat → Nat → Reader α} {text blanks : List Char} {value : α}
    (hblanks : AllBlank blanks)
    (h : (reader (text ++ blanks).length Reader.deepest).Takes text value) :
    Reader.readAll reader (String.ofList (text ++ blanks)) = .ok value := by
  have hempty : Delimits [] := fun c hc => absurd hc (by simp)
  have hrest : Delimits blanks := blanks.append_nil ▸ delimits_blanks hblanks hempty
  obtain ⟨after, hafter⟩ := (h.reads [] blanks allBlank_nil hrest).placed .start
  have hend := rest_afterBlanks hblanks after
  simp only [Reader.readAll, String.toList_ofList, Cursor.start]
  rw [List.nil_append] at hafter
  rw [hafter]
  simp only [Cursor.skipBlanks, hend, List.isEmpty_nil, if_true]

end EventOrder.Json
