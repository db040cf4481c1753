import EventOrder.Proofs.Program.Flat

/-!
# The check reports the first violation

What is wrong with a program can be said without the check: two variables or two events have one
name, or an operation, at any depth, has a modulus that is not positive or names a variable that is
not declared. These violations stand in an order, and the check, which stops at the first one it
meets, reports the first of them; it accepts the programs that have none.
-/

namespace EventOrder

/-- An operation stands among operations or, at any depth, inside one of their secondary
decisions. -/
inductive Operation.OccursIn (operation : Operation) : List Operation → Prop
  /-- It is the first of them. -/
  | here (operations : List Operation) : OccursIn operation (operation :: operations)
  /-- It stands inside the secondary decision that is the first of them. -/
  | inside {body : List Operation} (operations : List Operation) (h : OccursIn operation body) :
    OccursIn operation (.nested body :: operations)
  /-- It stands among the others. -/
  | after (other : Operation) {operations : List Operation} (h : OccursIn operation operations) :
    OccursIn operation (other :: operations)

/-- A name stands at two positions of a list. -/
def RepeatedIn (name : String) (names : List String) : Prop :=
  ∃ first second : Nat, first < second ∧ names[first]? = some name ∧ names[second]? = some name

/-- The names that occur before in the list, each where it occurs again. -/
def repetitions (names : List String) : List String :=
  names.zipIdx.filterMap fun (name, index) =>
    if name ∈ names.take index then some name else none

/-- The names that are not declared, as violations by the event. -/
def unknownVariables (declared : List String) (event : String) (names : List String) :
    List Violation :=
  (names.filter (· ∉ declared)).map (.unknownVariable event)

/-- Everything that is wrong with an operation of an event. The contents of a secondary decision
are operations of their own. -/
def Operation.violations (declared : List String) (event : String) : Operation → List Violation
  | .read name => unknownVariables declared event [name]
  | .write name _ => unknownVariables declared event [name]
  | .increment name modulus =>
    (if 0 < modulus then [] else [.badModulus event name modulus]) ++
      unknownVariables declared event [name]
  | .copy source target => unknownVariables declared event [source, target]
  | .nested _ => []

/-- Everything that is wrong with the body of an event, in document order: the contents of a
secondary decision come where it stands. -/
def EventBody.violations (declared : List String) (event : EventBody) : List Violation :=
  (Operation.flattenedAll event.operations).flatMap (Operation.violations declared event.name)

namespace Program

/-- The names of the variables, as declared. -/
def variableNames (program : Program) : List String := program.declarations.map (·.name)

/-- The names of the events, in order. -/
def eventNames (program : Program) : List String := program.events.map (·.name)

/-- Everything that is wrong with a program, in order: the repeated names of variables; then, event
by event, its name if one before has it, and its body. -/
def violations (program : Program) : List Violation :=
  (repetitions program.variableNames).map .duplicateVariable ++
    program.events.zipIdx.flatMap fun (event, index) =>
      (if event.name ∈ program.eventNames.take index then [.duplicateEvent event.name] else []) ++
        event.violations program.variableNames

/-- What it is for a program to be well formed. -/
structure WellFormed (program : Program) : Prop where
  /-- The variables have different names. -/
  variableNames : program.variableNames.Nodup
  /-- The events have different names. -/
  eventNames : program.eventNames.Nodup
  /-- Every modulus is positive, at any depth. -/
  moduli : ∀ event ∈ program.events, ∀ name modulus,
    Operation.OccursIn (.increment name modulus) event.operations → 0 < modulus
  /-- Every variable that an operation names is declared, at any depth. -/
  declared : ∀ event ∈ program.events, ∀ operation,
    Operation.OccursIn operation event.operations →
      ∀ name ∈ operation.mentioned, name ∈ program.variableNames

/-- A violation is one of the program. -/
def Violates (program : Program) : Violation → Prop
  | .duplicateVariable name => RepeatedIn name program.variableNames
  | .duplicateEvent name => RepeatedIn name program.eventNames
  | .unknownVariable event name => ∃ body ∈ program.events,
    (∃ operation, Operation.OccursIn operation body.operations ∧ name ∈ operation.mentioned) ∧
      name ∉ program.variableNames ∧ event = body.name
  | .badModulus event name modulus => ∃ body ∈ program.events,
    Operation.OccursIn (.increment name modulus) body.operations ∧ modulus ≤ 0 ∧ event = body.name

end Program

section Repetitions

variable {names : List String}

/-- The names before a position. -/
private theorem mem_take_iff {name : String} {index : Nat} :
    name ∈ names.take index ↔ ∃ first < index, names[first]? = some name := by
  simp only [List.mem_iff_getElem?, List.getElem?_take]
  refine exists_congr fun first => ?_
  split <;> simp_all

/-- The names listed are those that stand at two positions. -/
theorem mem_repetitions {name : String} :
    name ∈ repetitions names ↔ RepeatedIn name names := by
  simp only [repetitions, List.mem_filterMap, Prod.exists, List.mk_mem_zipIdx_iff_getElem?,
    Option.ite_none_right_eq_some, Option.some.injEq, mem_take_iff]
  constructor
  · rintro ⟨_, second, hsecond, ⟨first, hlt, hfirst⟩, rfl⟩
    exact ⟨first, second, hlt, hfirst, hsecond⟩
  · rintro ⟨first, second, hlt, hfirst, hsecond⟩
    exact ⟨name, second, hsecond, ⟨first, hlt, hfirst⟩, rfl⟩

/-- Names are all different when none stands at two positions. -/
theorem nodup_iff_forall_not_repeatedIn : names.Nodup ↔ ∀ name, ¬RepeatedIn name names := by
  rw [List.nodup_iff_getElem?_ne_getElem?]
  constructor
  · rintro hne name ⟨first, second, hlt, hfirst, hsecond⟩
    have hbound := (List.getElem?_eq_some_iff.mp hsecond).choose
    exact hne first second hlt hbound (hfirst.trans hsecond.symm)
  · intro hnone first second hlt hbound heq
    have hsecond := List.getElem?_eq_getElem hbound
    exact hnone _ ⟨first, second, hlt, heq.trans hsecond, hsecond⟩

/-- A name added to those seen joins the ones before. -/
private theorem mem_insert_iff {seen : Std.ExtTreeSet String} {before : List String}
    (hseen : ∀ name, name ∈ seen ↔ name ∈ before) (new name : String) :
    name ∈ seen.insert new ↔ name ∈ before ++ [new] := by
  rw [Std.ExtTreeSet.mem_insert, hseen, List.mem_append, List.mem_singleton,
    Std.compare_eq_iff_eq, or_comm, eq_comm]

/-- The first name found to have been seen is the first repetition. The names before are those
already seen. -/
private theorem firstRepeated?_eq {seen : Std.ExtTreeSet String} (before : List String)
    (hseen : ∀ name, name ∈ seen ↔ name ∈ before) :
    firstRepeated? seen names =
      (names.zipIdx before.length).findSome? fun (name, index) =>
        if name ∈ (before ++ names).take index then some name else none := by
  induction names generalizing seen before with
  | nil => rfl
  | cons name names ih =>
    have hrest := ih (before ++ [name]) (mem_insert_iff hseen name)
    simp only [List.length_append, List.length_singleton, List.append_assoc,
      List.singleton_append] at hrest
    simp only [firstRepeated?, List.zipIdx_cons, List.findSome?_cons, List.take_left, hrest,
      Std.ExtTreeSet.contains_iff_mem, hseen]
    split <;> rfl

/-- The first name that is repeated is the first of the repetitions. -/
theorem firstRepeated?_eq_head? : firstRepeated? ∅ names = (repetitions names).head? := by
  rw [firstRepeated?_eq [] (by simp), repetitions, List.head?_filterMap]
  rfl

end Repetitions

section Bodies

variable {declared : Std.ExtTreeSet String} {names : List String}
  (hnames : ∀ name, name ∈ declared ↔ name ∈ names)
include hnames

/-- The first name that is not declared is the first of them. -/
private theorem undeclared?_eq_head? (event : String) (mentioned : List String) :
    undeclared? declared event mentioned = (unknownVariables names event mentioned).head? := by
  have hdecide (name : String) : (!declared.contains name) = decide (name ∉ names) := by
    rw [Bool.eq_iff_iff, Bool.not_eq_true', ← Bool.not_eq_true, Std.ExtTreeSet.contains_iff_mem,
      hnames, decide_eq_true_eq]
  rw [undeclared?, unknownVariables, List.head?_map, List.head?_filter]
  simp only [hdecide]

/-- The first violation within an operation that is no secondary decision. -/
private theorem Operation.violation?_eq (event : String) {operation : Operation}
    (hplain : operation.isPlain = true) :
    operation.violation? declared event = (operation.violations names event).head? := by
  cases operation with
  | nested body => exact absurd hplain (by simp [Operation.isPlain])
  | read | write | copy =>
    simp only [Operation.violation?, Operation.violations, undeclared?_eq_head? hnames]
  | increment name modulus =>
    simp only [Operation.violation?, Operation.violations, undeclared?_eq_head? hnames,
      List.head?_append, ← Int64.not_le]
    split <;> simp

/-- The first violation within operations. -/
private theorem Operation.firstViolation?_eq_head? (event : String)
    (operations : List Operation) :
    Operation.firstViolation? declared event operations =
      ((Operation.flattenedAll operations).flatMap (Operation.violations names event)).head? := by
  have hplain (flat : List Operation) (h : ∀ operation ∈ flat, operation.isPlain = true) :
      Operation.firstViolation? declared event flat =
        (flat.flatMap (Operation.violations names event)).head? := by
    induction flat with
    | nil => rfl
    | cons operation flat ih =>
      simp only [List.forall_mem_cons] at h
      rw [Operation.firstViolation?, Operation.violation?_eq hnames event h.1, ih h.2,
        List.flatMap_cons, List.head?_append]
      cases (operation.violations names event).head? <;> rfl
  rw [← Operation.firstViolation?_flattenedAll]
  exact hplain _ (Operation.isPlain_of_mem_flattenedAll operations)

/-- The first violation within events, of which those before have these names. -/
private theorem EventBody.firstViolation?_eq {seen : Std.ExtTreeSet String}
    (before : List String) {events : List EventBody}
    (hseen : ∀ name, name ∈ seen ↔ name ∈ before) :
    EventBody.firstViolation? declared seen events =
      (events.zipIdx before.length).findSome? fun (event, index) =>
        ((if event.name ∈ (before ++ events.map (·.name)).take index then
            [Violation.duplicateEvent event.name] else []) ++ event.violations names).head? := by
  induction events generalizing seen before with
  | nil => rfl
  | cons event events ih =>
    have hrest := ih (before ++ [event.name]) (mem_insert_iff hseen event.name)
    simp only [List.length_append, List.length_singleton, List.append_assoc,
      List.singleton_append] at hrest
    have hbody : Operation.firstViolation? declared event.name event.operations =
        (event.violations names).head? :=
      Operation.firstViolation?_eq_head? hnames event.name event.operations
    simp only [EventBody.firstViolation?, List.map_cons, List.zipIdx_cons, List.findSome?_cons,
      List.take_left, hrest, Std.ExtTreeSet.contains_iff_mem, hseen, hbody]
    split
    · rfl
    · rw [List.nil_append]
      cases (event.violations names).head? <;> rfl

end Bodies

namespace Operation

/-- What stands among operations and others stands among the ones or the others. -/
private theorem occursIn_append {operation : Operation} {operations others : List Operation} :
    OccursIn operation (operations ++ others) ↔
      OccursIn operation operations ∨ OccursIn operation others := by
  induction operations with
  | nil => exact ⟨Or.inr, fun h => h.elim nofun id⟩
  | cons first operations ih =>
    constructor
    · rintro (_ | ⟨_, hinside⟩ | ⟨_, hafter⟩)
      · exact Or.inl (.here _)
      · exact Or.inl (.inside _ hinside)
      · exact (ih.mp hafter).imp_left (.after _)
    · rintro ((_ | ⟨_, hinside⟩ | ⟨_, hafter⟩) | hothers)
      · exact .here _
      · exact .inside _ hinside
      · exact .after _ (ih.mpr (Or.inl hafter))
      · exact .after _ (ih.mpr (Or.inr hothers))

/-- The operations without secondary decisions are those that stand at any depth. -/
theorem mem_flattenedAll {operation : Operation} {operations : List Operation} :
    operation ∈ flattenedAll operations ↔
      OccursIn operation operations ∧ operation.isPlain = true := by
  have hsees : SeesThrough fun flat nesting => ∀ operation ∈ flat, OccursIn operation nesting := by
    refine ⟨by simp, ?_, ?_, fun flat body hbody operation hmem => .inside [] (hbody _ hmem)⟩
    · rintro operation - _ hmem
      obtain rfl := List.mem_singleton.mp hmem
      exact .here []
    · intro flat nesting others nestings hflat hothers operation hmem
      exact occursIn_append.mpr ((List.mem_append.mp hmem).imp (hflat _) (hothers _))
  constructor
  · intro hmem
    exact ⟨hsees.flattenedAll operations _ hmem,
      isPlain_of_mem_flattenedAll operations _ hmem⟩
  · rintro ⟨hoccurs, hplain⟩
    induction hoccurs with
    | here rest =>
      have hself : operation.flattened = [operation] := by
        cases operation with
        | nested body => exact absurd hplain (by simp [isPlain])
        | read | write | increment | copy => rfl
      exact List.mem_append_left _ (by simp [hself])
    | inside rest _ ih => exact List.mem_append_left _ ih
    | after other _ ih => exact List.mem_append_right _ ih

/-- The variables that operations name are those named at some depth. -/
theorem mem_mentionedByAll_iff_occursIn {name : String} {operations : List Operation} :
    name ∈ mentionedByAll operations ↔
      ∃ operation, OccursIn operation operations ∧ name ∈ operation.mentioned := by
  constructor
  · intro hname
    induction operations with
    | nil => exact absurd hname List.not_mem_nil
    | cons operation operations ih =>
      rcases List.mem_append.mp hname with hhere | hrest
      · exact ⟨operation, .here _, hhere⟩
      · obtain ⟨other, hoccurs, hother⟩ := ih hrest
        exact ⟨other, .after _ hoccurs, hother⟩
  · rintro ⟨operation, hoccurs, hname⟩
    induction hoccurs with
    | here rest => exact List.mem_append_left _ hname
    | inside rest _ ih => exact List.mem_append_left _ ih
    | after other _ ih => exact List.mem_append_right _ ih

/-- The variables that operations and others name. -/
private theorem mentionedByAll_append (operations others : List Operation) :
    mentionedByAll (operations ++ others) = mentionedByAll operations ++ mentionedByAll others := by
  induction operations with
  | nil => rfl
  | cons operation operations ih => simp [mentionedByAll, ih]

/-- The variables that operations name are those that the ones without secondary decisions name. -/
theorem mem_mentionedByAll_iff_flattenedAll {name : String} {operations : List Operation} :
    name ∈ mentionedByAll operations ↔
      ∃ operation ∈ flattenedAll operations, name ∈ operation.mentioned := by
  have hsees : SeesThrough fun flat nesting =>
      name ∈ mentionedByAll nesting ↔ ∃ operation ∈ flat, name ∈ operation.mentioned := by
    refine ⟨by simp [mentionedByAll], by simp [mentionedByAll], ?_,
      fun flat body hbody => by simpa [mentionedByAll, mentioned] using hbody⟩
    intro flat nesting others nestings hflat hothers
    simp [mentionedByAll_append, hflat, hothers, or_and_right, exists_or]
  exact hsees.flattenedAll operations

/-- What is wrong with an operation that is no secondary decision. -/
private theorem mem_violations {names : List String} {event : String} {operation : Operation}
    (hplain : operation.isPlain = true) {violation : Violation} :
    violation ∈ operation.violations names event ↔
      (∃ name ∈ operation.mentioned, name ∉ names ∧ violation = .unknownVariable event name) ∨
        ∃ name modulus, operation = .increment name modulus ∧ modulus ≤ 0 ∧
          violation = .badModulus event name modulus := by
  have hunknown (mentioned : List String) :
      violation ∈ unknownVariables names event mentioned ↔
        ∃ name ∈ mentioned, name ∉ names ∧ violation = .unknownVariable event name := by
    simp only [unknownVariables, List.mem_map, List.mem_filter, decide_eq_true_eq, and_assoc,
      eq_comm (a := violation)]
  cases operation with
  | nested body => exact absurd hplain (by simp [isPlain])
  | read | write | copy => simp [violations, hunknown, mentioned]
  | increment name modulus =>
    rw [violations, List.mem_append, hunknown, or_comm]
    refine or_congr Iff.rfl ?_
    by_cases hmodulus : 0 < modulus
    · simp [hmodulus, Int64.not_le.mpr hmodulus]
    · simp [hmodulus, Int64.not_lt.mp hmodulus]

end Operation

/-- What is wrong with the body of an event: a variable that some operation names is not declared,
or a modulus is not positive. -/
private theorem EventBody.mem_violations {names : List String} {event : EventBody}
    {violation : Violation} :
    violation ∈ event.violations names ↔
      (∃ name, (∃ operation, Operation.OccursIn operation event.operations ∧
          name ∈ operation.mentioned) ∧ name ∉ names ∧
            violation = .unknownVariable event.name name) ∨
        ∃ name modulus, Operation.OccursIn (.increment name modulus) event.operations ∧
          modulus ≤ 0 ∧ violation = .badModulus event.name name modulus := by
  simp only [← Operation.mem_mentionedByAll_iff_occursIn,
    Operation.mem_mentionedByAll_iff_flattenedAll]
  simp only [violations, List.mem_flatMap]
  constructor
  · rintro ⟨operation, hmem, hviolation⟩
    have hoccurs := Operation.mem_flattenedAll.mp hmem
    rcases (Operation.mem_violations hoccurs.2).mp hviolation with
      ⟨name, hname, hrest⟩ | ⟨name, modulus, rfl, hrest⟩
    · exact Or.inl ⟨name, ⟨operation, hmem, hname⟩, hrest⟩
    · exact Or.inr ⟨name, modulus, hoccurs.1, hrest⟩
  · rintro (⟨name, ⟨operation, hmem, hname⟩, hrest⟩ | ⟨name, modulus, hoccurs, hrest⟩)
    · have hplain := Operation.isPlain_of_mem_flattenedAll _ _ hmem
      exact ⟨operation, hmem, (Operation.mem_violations hplain).mpr
        (Or.inl ⟨name, hname, hrest⟩)⟩
    · exact ⟨.increment name modulus, Operation.mem_flattenedAll.mpr ⟨hoccurs, rfl⟩,
        (Operation.mem_violations rfl).mpr (Or.inr ⟨name, modulus, rfl, hrest⟩)⟩

namespace Program

variable (program : Program)

/-- The events whose name one before has are those at the second of two positions of a name. -/
private theorem exists_repeated_iff {name : String} :
    (∃ event index, (event, index) ∈ program.events.zipIdx ∧
        event.name ∈ program.eventNames.take index ∧ event.name = name) ↔
      RepeatedIn name program.eventNames := by
  simp only [List.mk_mem_zipIdx_iff_getElem?, mem_take_iff]
  constructor
  · rintro ⟨event, second, hsecond, ⟨first, hlt, hfirst⟩, rfl⟩
    exact ⟨first, second, hlt, hfirst, by simp [eventNames, hsecond]⟩
  · rintro ⟨first, second, hlt, hfirst, hsecond⟩
    obtain ⟨event, hevent, rfl⟩ : ∃ event, program.events[second]? = some event ∧
        event.name = name := by
      simpa [eventNames] using hsecond
    exact ⟨event, second, hevent, ⟨first, hlt, hfirst⟩, rfl⟩

/-- The violations listed are those of the program. -/
theorem mem_violations_iff {violation : Violation} :
    violation ∈ program.violations ↔ program.Violates violation := by
  have hbodies : (∃ event index, (event, index) ∈ program.events.zipIdx ∧
      violation ∈ event.violations program.variableNames) ↔
        ∃ event ∈ program.events, violation ∈ event.violations program.variableNames := by
    simp [List.mem_iff_getElem?]
  have hsplit : violation ∈ program.violations ↔
      (∃ name, RepeatedIn name program.variableNames ∧ .duplicateVariable name = violation) ∨
        (∃ name, RepeatedIn name program.eventNames ∧ .duplicateEvent name = violation) ∨
          ∃ event ∈ program.events, violation ∈ event.violations program.variableNames := by
    simp only [← exists_repeated_iff, ← hbodies]
    simp only [violations, List.mem_append, List.mem_map, mem_repetitions, List.mem_flatMap,
      Prod.exists]
    refine or_congr Iff.rfl ?_
    simp only [List.mem_ite_nil_right, List.mem_singleton, and_or_left, exists_or]
    refine or_congr ?_ Iff.rfl
    constructor
    · rintro ⟨event, index, hmem, hrepeated, rfl⟩
      exact ⟨_, ⟨event, index, hmem, hrepeated, rfl⟩, rfl⟩
    · rintro ⟨_, ⟨event, index, hmem, hrepeated, rfl⟩, rfl⟩
      exact ⟨event, index, hmem, hrepeated, rfl⟩
  rw [hsplit]
  simp only [EventBody.mem_violations]
  cases violation with
  | duplicateVariable | duplicateEvent | unknownVariable | badModulus => simp [Violates]

/-- A program is well formed when it has no violation. -/
theorem wellFormed_iff_forall_not_violates :
    program.WellFormed ↔ ∀ violation, ¬program.Violates violation := by
  constructor
  · rintro h (name | name | ⟨event, name⟩ | ⟨event, name, modulus⟩) hviolates
    · exact nodup_iff_forall_not_repeatedIn.mp h.variableNames name hviolates
    · exact nodup_iff_forall_not_repeatedIn.mp h.eventNames name hviolates
    · obtain ⟨body, hbody, ⟨operation, hoccurs, hname⟩, hundeclared, -⟩ := hviolates
      exact hundeclared (h.declared body hbody operation hoccurs name hname)
    · obtain ⟨body, hbody, hoccurs, hmodulus, -⟩ := hviolates
      exact Int64.not_le.mpr (h.moduli body hbody name modulus hoccurs) hmodulus
  · intro hnone
    refine ⟨nodup_iff_forall_not_repeatedIn.mpr fun name => hnone (.duplicateVariable name),
      nodup_iff_forall_not_repeatedIn.mpr fun name => hnone (.duplicateEvent name), ?_, ?_⟩
    · intro event hevent name modulus hoccurs
      by_contra hmodulus
      exact hnone (.badModulus event.name name modulus)
        ⟨event, hevent, hoccurs, Int64.not_lt.mp hmodulus, rfl⟩
    · intro event hevent operation hoccurs name hname
      by_contra hundeclared
      exact hnone (.unknownVariable event.name name)
        ⟨event, hevent, ⟨operation, hoccurs, hname⟩, hundeclared, rfl⟩

/-- The check accepts the well-formed programs and no others, and what it reports of any other is
the first of its violations: these are listed by the order in which they are to be reported. -/
theorem violation?_eq_head? :
    (program.violation? = none ↔ program.WellFormed) ∧
      program.violation? = program.violations.head? ∧
        ∀ violation, violation ∈ program.violations ↔ program.Violates violation := by
  have hdeclared (name : String) : name ∈ program.declared ↔ name ∈ program.variableNames := by
    simp [declared, variableNames, Std.ExtTreeSet.mem_ofList]
  have hfirst : program.violation? = program.violations.head? := by
    rw [violation?, violations, List.head?_append, List.head?_map, List.head?_flatMap,
      firstRepeated?_eq_head?, EventBody.firstViolation?_eq hdeclared [] (by simp)]
    rw [variableNames]
    cases (repetitions (program.declarations.map (·.name))).head? <;> rfl
  refine ⟨?_, hfirst, fun violation => program.mem_violations_iff⟩
  rw [hfirst, List.head?_eq_none_iff, List.eq_nil_iff_forall_not_mem,
    wellFormed_iff_forall_not_violates]
  simp only [mem_violations_iff]

end Program

end EventOrder
