import EventOrder.Program.Reader
import EventOrder.Proofs.Program.Operations

/-!
# Formatting a program

The canonical text of a program says all that there is in the program. A program that was read from
any text is read back from its canonical text, also with a line end after it, because its numbers
fit 64 bits and its operations are nested no deeper than the text that they were read from. So
formatting a program that is formatted already changes nothing.
-/

namespace EventOrder

open Json Json.Reader

/-- What holds of every program that is read: the names of owners fit 64 bits, and operations are
nested no deeper than a text with the lists and objects around them may be. -/
structure Program.Writable (program : Program) : Prop where
  /-- The names of owners fit 64 bits. -/
  owner_lt : ∀ shared ∈ program.declarations, shared.owner.number < 2 ^ 64
  /-- Operations are nested within what the four brackets around them leave. -/
  within : ∀ event ∈ program.events, ∀ operation ∈ event.operations,
    operation.Within (deepest - 4)

section Reading

variable {most depth : Nat}

/-- An unsigned number is read in its range. -/
private theorem yields_unsigned : unsigned.Yields (· < 2 ^ 64) := by
  refine Yields.placed (yields_bind fun number => yields_ofExcept fun value haccepted => ?_)
  cases number with
  | floating => exact absurd haccepted (by simp [asUnsigned, inRange, Except.map])
  | whole written =>
    simp only [asUnsigned, inRange] at haccepted
    split at haccepted
    · obtain rfl := Except.ok.inj haccepted
      omega
    · exact absurd haccepted (by simp [Except.map])

/-- A variable that is read has an owner whose name fits 64 bits. -/
private theorem yields_variable :
    (record most depth Variable.shape).Yields (·.owner.number < 2 ^ 64) := by
  refine yields_record (fun draft => ∀ owner, draft.owner = some owner → owner < 2 ^ 64) most
    (fun owner hnone => absurd hnone (by simp [Variable.shape])) (fun left _ => ?_) ?_
  · simp only [Variable.shape, List.forall_mem_cons]
    refine ⟨fun draft hdraft => ?_, fun draft hdraft => ?_, fun draft hdraft => ?_,
      List.forall_mem_nil _⟩
    · exact yields_bind fun name => yields_pure hdraft
    · refine yields_unsigned.bind fun owner howner => yields_pure ?_
      rintro other hother
      exact Option.some.inj hother ▸ howner
    · exact yields_bind fun initial => yields_pure hdraft
  · intro draft hdraft shared hfinish
    obtain ⟨name, -, hmade⟩ := exists_of_bind_eq_ok hfinish
    obtain rfl := Except.ok.inj hmade
    cases howner : draft.owner with
    | none => simp
    | some owner =>
      simp only [Option.getD_some]
      exact hdraft owner howner

/-- A field that has to be given was given. -/
private theorem eq_some_of_required {α : Type} {name : String} {given : Option α} {value : α}
    (h : required name given = .ok value) : given = some value := by
  cases given with
  | none => exact absurd h (by simp [required])
  | some other => exact congrArg some (Except.ok.inj h)

/-- An event that is read is nested no deeper than the reader goes, but for two brackets. -/
private theorem yields_event : (record most (depth + 2) (EventBody.shape most)).Yields
    fun event => ∀ operation ∈ event.operations, operation.Within depth := by
  refine yields_record (fun draft => ∀ operations, draft.operations = some operations →
    ∀ operation ∈ operations, operation.Within depth) most
    (fun operations hnone => absurd hnone (by simp [EventBody.shape])) (fun left hleft => ?_) ?_
  · obtain rfl : depth + 1 = left := Nat.succ.inj hleft
    simp only [EventBody.shape, List.forall_mem_cons]
    refine ⟨fun draft hdraft => ?_, fun draft hdraft => ?_, List.forall_mem_nil _⟩
    · exact yields_bind fun name => yields_pure hdraft
    · have hread : (list most (depth + 1) (Operation.reader most)).Yields
          fun operations => ∀ operation ∈ operations, operation.Within depth := by
        refine yields_list most fun inner hinner => ?_
        obtain rfl : depth = inner := Nat.succ.inj hinner
        exact Operation.yields_reader most depth
      refine hread.bind fun operations hoperations => yields_pure ?_
      rintro other hother
      exact Option.some.inj hother ▸ hoperations
  · intro draft hdraft event hfinish
    obtain ⟨name, -, hmade⟩ := exists_of_bind_eq_ok hfinish
    obtain ⟨operations, hgiven, hmade⟩ := exists_of_bind_eq_ok hmade
    obtain rfl := Except.ok.inj hmade
    exact hdraft operations (eq_some_of_required hgiven)

/-- A program that is read has what every program has that is written back. -/
private theorem yields_program :
    (record most deepest (Program.shape most)).Yields Program.Writable := by
  refine yields_record (fun draft =>
    (∀ declarations, draft.declarations = some declarations →
      ∀ shared ∈ declarations, shared.owner.number < 2 ^ 64) ∧
    ∀ events, draft.events = some events → ∀ event ∈ events,
      ∀ operation ∈ event.operations, operation.Within (deepest - 4)) most
    ⟨fun _ hnone => absurd hnone (by simp [Program.shape]),
      fun _ hnone => absurd hnone (by simp [Program.shape])⟩ (fun left hleft => ?_) ?_
  · obtain rfl : deepest - 1 = left := Nat.succ.inj hleft
    simp only [Program.shape, List.forall_mem_cons]
    refine ⟨fun draft hdraft => ?_, fun draft hdraft => ?_, fun draft hdraft => ?_,
      fun draft hdraft => ?_, List.forall_mem_nil _⟩
    · exact yields_bind fun name => yields_pure hdraft
    · refine (yields_list most fun inner _ => yields_variable).bind
        fun declarations hdeclarations => yields_pure ⟨?_, hdraft.2⟩
      rintro other hother
      exact Option.some.inj hother ▸ hdeclarations
    · have hread : (list most (deepest - 1) fun depth =>
          record most depth (EventBody.shape most)).Yields fun events => ∀ event ∈ events,
            ∀ operation ∈ event.operations, operation.Within (deepest - 4) := by
        refine yields_list most fun inner hinner => ?_
        obtain rfl : deepest - 2 = inner := Nat.succ.inj hinner
        exact yields_event
      refine hread.bind fun events hevents => yields_pure ⟨hdraft.1, ?_⟩
      rintro other hother
      exact Option.some.inj hother ▸ hevents
    · exact yields_bind fun filter => yields_pure hdraft
  · intro draft hdraft program hfinish
    obtain ⟨name, -, hmade⟩ := exists_of_bind_eq_ok hfinish
    obtain ⟨declarations, hdeclarations, hmade⟩ := exists_of_bind_eq_ok hmade
    obtain ⟨events, hevents, hmade⟩ := exists_of_bind_eq_ok hmade
    obtain rfl := Except.ok.inj hmade
    exact ⟨hdraft.1 declarations (eq_some_of_required hdeclarations),
      hdraft.2 events (eq_some_of_required hevents)⟩

end Reading

section Writing

variable {spacing : Spacing} {most level : Nat}

/-- A draft is filled with one field more. -/
private theorem fills_field {δ α : Type} {declared : List (Json.Field δ)} {depth : Nat}
    {draft next last : δ} {key : String} {tree : Tree} {rest : List (String × Tree)}
    {field : Json.Field δ} (hfind : declared.find? (·.name == key) = some field)
    (hunfilled : field.isFilled draft = false) {reader : Reader α} {value : α}
    (htakes : reader.Takes (tree.chars spacing level) value) {take : α → δ}
    (hread : field.read depth draft = (do return take (← reader))) (hnext : take value = next)
    (hrest : Fills spacing level declared depth next rest last) :
    Fills spacing level declared depth draft ((key, tree) :: rest) last := by
  refine .field hfind hunfilled ?_ hrest
  rw [hread]
  exact htakes.bind fun following => hnext ▸ reads_pure _ following

/-- A variable is read back from its tree. -/
private theorem Variable.takes (hspacing : spacing.Blank) {shared : Variable}
    (howner : shared.owner.number < 2 ^ 64) (depth : Nat)
    (hmost : (shared.tree.chars spacing level).length ≤ most) :
    (record most (depth + 1) Variable.shape).Takes (shared.tree.chars spacing level) shared := by
  have hfills : Fills spacing (level + 1) Variable.shape.fields depth Variable.shape.draft
      [("name", .text shared.name), ("owner", .ofInt shared.owner.number),
        ("initial", .ofInt shared.initial.toInt)]
      ⟨some shared.name, some shared.owner.number, some shared.initial⟩ :=
    fills_field rfl rfl (takes_text _ _) rfl rfl <|
      fills_field rfl rfl (takes_unsigned howner) rfl rfl <|
        fills_field rfl rfl (takes_signed _) rfl rfl (.done _)
  exact hfills.takes_record hspacing rfl hmost

/-- An event is read back from its tree. -/
private theorem EventBody.takes (hspacing : spacing.Blank) {event : EventBody} {depth : Nat}
    (hdepth : depth ≤ deepest) (hevent : ∀ operation ∈ event.operations, operation.Within depth)
    (hmost : (event.tree.chars spacing level).length ≤ most) :
    (record most (depth + 2) (EventBody.shape most)).Takes (event.tree.chars spacing level)
      event := by
  have hlength := Tree.length_field_le hspacing hmost
  have hoperations : (list most (depth + 1) (Operation.reader most)).Takes
      ((Tree.list (Operation.trees event.operations)).chars spacing (level + 1))
      event.operations := by
    have hfits := hlength ("ops", .list (Operation.trees event.operations)) (by simp)
    rw [Operation.trees_eq_map] at hfits ⊢
    exact Tree.takes_list hspacing
      (fun operation hoperation => (hevent operation hoperation).takes hspacing hdepth) hfits
  have hfills : Fills spacing (level + 1) (EventBody.shape most).fields (depth + 1)
      (EventBody.shape most).draft
      [("name", .text event.name), ("ops", .list (Operation.trees event.operations))]
      ⟨some event.name, some event.operations⟩ :=
    fills_field rfl rfl (takes_text _ _) rfl rfl <|
      fills_field rfl rfl hoperations rfl rfl (.done _)
  exact hfills.takes_record hspacing rfl hmost

/-- A list of patterns as it is written: an empty one is left out. -/
private def given (patterns : List String) : Option (List String) :=
  if patterns.isEmpty then none else some patterns

/-- A list that is left out is empty. -/
private theorem getD_given (patterns : List String) : (given patterns).getD [] = patterns := by
  cases patterns <;> rfl

/-- A draft is filled with a list of patterns, if that is written. -/
private theorem fills_patterns (hspacing : spacing.Blank)
    {declared : List (Json.Field PatternDraft)} {depth : Nat} {patterns : List String}
    (take : Option (List String) → PatternDraft) {last : PatternDraft} {key : String}
    {rest : List (String × Tree)} {field : Json.Field PatternDraft}
    (hfind : declared.find? (·.name == key) = some field)
    (hunfilled : field.isFilled (take none) = false)
    (hread : field.read (depth + 1) (take none) =
      (do return take (some (← list most (depth + 1) fun _ => text "a string"))))
    (hmost : ∀ written ∈ PatternLists.field key patterns,
      (written.2.chars spacing level).length ≤ most)
    (hrest : Fills spacing level declared (depth + 1) (take (given patterns)) rest last) :
    Fills spacing level declared (depth + 1) (take none) (PatternLists.field key patterns ++ rest)
      last := by
  cases patterns with
  | nil => exact hrest
  | cons pattern patterns =>
    have hfits := hmost (key, .list ((pattern :: patterns).map .text)) List.mem_cons_self
    have htakes : (list most (depth + 1) fun _ => text "a string").Takes
        ((Tree.list ((pattern :: patterns).map Tree.text)).chars spacing level)
        (pattern :: patterns) :=
      Tree.takes_list hspacing (fun value _ _ => takes_text _ value) hfits
    exact fills_field hfind hunfilled htakes hread rfl hrest

/-- The patterns of a filter are read back from their tree. -/
private theorem PatternLists.takes (hspacing : spacing.Blank) {patterns : PatternLists}
    (depth : Nat) (hmost : (patterns.tree.chars spacing level).length ≤ most) :
    (record most (depth + 2) (PatternLists.shape most)).Takes (patterns.tree.chars spacing level)
      patterns := by
  have hlength := Tree.length_field_le hspacing hmost
  simp only [List.forall_mem_append] at hlength
  obtain ⟨⟨⟨hstarts, hends⟩, hcontains⟩, hwrites⟩ := hlength
  have hfills : Fills spacing (level + 1) (PatternLists.shape most).fields (depth + 1)
      (PatternLists.shape most).draft
      (field "starts_with" patterns.startsWith ++ (field "ends_with" patterns.endsWith ++
        (field "contains" patterns.contains ++
          (field "write_starts_with" patterns.writeStartsWith ++ []))))
      ⟨given patterns.startsWith, given patterns.endsWith, given patterns.contains,
        given patterns.writeStartsWith⟩ := by
    refine fills_patterns hspacing (fun list => ⟨list, none, none, none⟩) rfl rfl rfl hstarts ?_
    refine fills_patterns hspacing (fun list => ⟨_, list, none, none⟩) rfl rfl rfl hends ?_
    refine fills_patterns hspacing (fun list => ⟨_, _, list, none⟩) rfl rfl rfl hcontains ?_
    exact fills_patterns hspacing (fun list => ⟨_, _, _, list⟩) rfl rfl rfl hwrites (.done _)
  have hfields : patterns.tree = .object (field "starts_with" patterns.startsWith ++
      (field "ends_with" patterns.endsWith ++ (field "contains" patterns.contains ++
        (field "write_starts_with" patterns.writeStartsWith ++ [])))) := by
    simp only [PatternLists.tree, List.append_assoc, List.append_nil]
  rw [hfields] at hmost ⊢
  refine hfills.takes_record hspacing ?_ hmost
  simp only [PatternLists.shape, getD_given]

/-- Patterns of which there are none are the empty ones. -/
private theorem PatternLists.eq_empty_of_isEmpty {patterns : PatternLists}
    (h : patterns.isEmpty = true) : patterns = .empty := by
  obtain ⟨startsWith, endsWith, contains, writeStartsWith⟩ := patterns
  simp only [PatternLists.isEmpty, Bool.and_eq_true, List.isEmpty_iff] at h
  obtain ⟨⟨⟨rfl, rfl⟩, rfl⟩, rfl⟩ := h
  rfl

/-- A program is read back from its tree. -/
theorem Program.Writable.takes (hspacing : spacing.Blank) {program : Program}
    (h : program.Writable) (hmost : (program.tree.chars spacing level).length ≤ most) :
    (record most deepest (Program.shape most)).Takes (program.tree.chars spacing level)
      program := by
  have hlength := Tree.length_field_le hspacing hmost
  simp only [List.forall_mem_append, List.forall_mem_cons] at hlength
  obtain ⟨⟨-, hdeclarations, hevents, -⟩, hfilter⟩ := hlength
  have htakesDeclarations : (list most (deepest - 1) fun depth =>
      record most depth Variable.shape).Takes
      ((Tree.list (program.declarations.map Variable.tree)).chars spacing (level + 1))
      program.declarations :=
    Tree.takes_list hspacing
      (fun shared hshared => Variable.takes hspacing (h.owner_lt shared hshared) _) hdeclarations
  have htakesEvents : (list most (deepest - 1) fun depth =>
      record most depth (EventBody.shape most)).Takes
      ((Tree.list (program.events.map EventBody.tree)).chars spacing (level + 1))
      program.events :=
    Tree.takes_list hspacing
      (fun event hevent => EventBody.takes hspacing (by decide) (h.within event hevent)) hevents
  have hfills (written : List (String × Tree)) (filter : Option PatternLists)
      (hwritten : Fills spacing (level + 1) (Program.shape most).fields (deepest - 1)
        ⟨some program.name, some program.declarations, some program.events, none⟩ written
        ⟨some program.name, some program.declarations, some program.events, filter⟩) :
      Fills spacing (level + 1) (Program.shape most).fields (deepest - 1)
        (Program.shape most).draft
        ([("name", .text program.name),
          ("variables", .list (program.declarations.map Variable.tree)),
          ("events", .list (program.events.map EventBody.tree))] ++ written)
        ⟨some program.name, some program.declarations, some program.events, filter⟩ :=
    fills_field rfl rfl (takes_text _ _) rfl rfl <|
      fills_field rfl rfl htakesDeclarations rfl rfl <|
        fills_field rfl rfl htakesEvents rfl rfl hwritten
  by_cases hempty : program.filter.isEmpty = true
  · refine (hfills _ none ?_).takes_record hspacing ?_ hmost
    · rw [if_pos hempty]
      exact .done _
    · have hnone := PatternLists.eq_empty_of_isEmpty hempty
      obtain ⟨name, declarations, events, filter⟩ := program
      obtain rfl : filter = .empty := hnone
      rfl
  · refine (hfills _ (some program.filter) ?_).takes_record hspacing rfl hmost
    rw [if_neg hempty] at hfilter ⊢
    have htakesFilter : (record most (deepest - 1) (PatternLists.shape most)).Takes
        (program.filter.tree.chars spacing (level + 1)) program.filter :=
      PatternLists.takes hspacing _ (hfilter ("filter", program.filter.tree) (by simp))
    exact fills_field rfl rfl htakesFilter rfl rfl (.done _)

end Writing

namespace Program

/-- A program that is read is written back. -/
theorem writable_of_read {source : String} {program : Program}
    (h : Program.read source = .ok program) : program.Writable :=
  yields_program.readAll h

/-- A program is read back from its canonical text, whatever blanks follow it. -/
theorem Writable.read_pretty {program : Program} (h : program.Writable) {blanks : List Char}
    (hblanks : AllBlank blanks) :
    Program.read (program.pretty ++ String.ofList blanks) = .ok program := by
  have htext : program.pretty ++ String.ofList blanks =
      String.ofList (program.tree.chars .indented 0 ++ blanks) := by
    rw [String.ofList_append]
    rfl
  rw [htext]
  refine readAll_of_takes hblanks ?_
  exact h.takes Spacing.blank_indented (by simp only [List.length_append]; omega)

/-- Formatting loses nothing: a program that was loaded from any text is loaded from its canonical
text, and from that with a line end after it; so formatting either of them makes the same text. -/
theorem load_pretty {source : String} {program : Program}
    (h : Program.load source = .ok program) :
    Program.load program.pretty = .ok program ∧
      Program.load (program.pretty ++ "\n") = .ok program ∧
        ∀ text ∈ [program.pretty, program.pretty ++ "\n"],
          (Program.load text).map Program.pretty = .ok program.pretty := by
  obtain ⟨hread, hvalid⟩ : Program.read source = .ok program ∧ program.violation? = none := by
    unfold load at h
    split at h
    · exact absurd h (by simp)
    · rename_i read hread
      split at h
      · exact absurd h (by simp)
      · rename_i hvalid
        obtain rfl := Except.ok.inj h
        exact ⟨hread, hvalid⟩
  have hload {blanks : List Char} (hblanks : AllBlank blanks) :
      Program.load (program.pretty ++ String.ofList blanks) = .ok program := by
    simp only [load, (writable_of_read hread).read_pretty hblanks, hvalid]
  have hplain : Program.load program.pretty = .ok program := by
    have hnothing := hload allBlank_nil
    rwa [String.ofList_nil, String.append_empty] at hnothing
  have hended : Program.load (program.pretty ++ String.ofList ['\n']) = .ok program :=
    hload fun c hc => List.mem_singleton.mp hc ▸ rfl
  rw [show String.ofList ['\n'] = "\n" from rfl] at hended
  refine ⟨hplain, hended, ?_⟩
  simp only [List.forall_mem_cons, hplain, hended]
  exact ⟨rfl, rfl, List.forall_mem_nil _⟩

/-- A program with fields out of order and lists in the place of objects, an escape, an unsigned
number that is not a signed one and a filter without patterns. -/
def shorthand : String :=
  "\x7b\"events\": [[\"tick\\u0001\", [[\"Nested\", [\x7b\"var\": \"x\", \"modulus\": 3, " ++
    "\"kind\": \"Increment\"\x7d]]]]], \"variables\": [[\"x\", 18446744073709551615]], " ++
    "\"name\": \"ticking\", \"filter\": \x7b\x7d\x7d"

/-- The program that this is. -/
def ticking : Program where
  name := "ticking"
  declarations := [⟨"x", ⟨18446744073709551615⟩, 0⟩]
  events := [⟨"tick\x01", [.nested [.increment "x" 3]]⟩]
  filter := .empty

/-- Its canonical text is another one, and says the same. -/
theorem load_pretty_ticking :
    Program.load shorthand = .ok ticking ∧ ticking.pretty ≠ shorthand ∧
      Program.load ticking.pretty = .ok ticking ∧
        Program.load (ticking.pretty ++ "\n") = .ok ticking := by
  have hload : Program.load shorthand = .ok ticking := by
    have hsome : (Program.load shorthand).toOption = some ticking := by decide +kernel
    cases hresult : Program.load shorthand with
    | error error => simp [hresult, Except.toOption] at hsome
    | ok program => simpa [hresult, Except.toOption] using hsome
  obtain ⟨hplain, hended, -⟩ := load_pretty hload
  exact ⟨hload, by decide +kernel, hplain, hended⟩

end Program

end EventOrder
