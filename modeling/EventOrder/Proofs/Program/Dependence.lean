import EventOrder.Machine.Code
import EventOrder.Program.Check

/-!
# Dependent events

Two events are dependent when one of them writes a variable that the other reads or writes, at any
depth of its body. In a well-formed program the accesses observed while an event runs are those to
the variables that its operations name, so dependence can be read off either.
-/

namespace EventOrder

mutual

/-- The variables that an operation accesses in a way, at any depth. -/
def Operation.accessed (kind : AccessKind) : Operation → List String
  | .read name => if kind = .read then [name] else []
  | .write name _ => if kind = .write then [name] else []
  | .increment name _ => [name]
  | .copy source target => if kind = .read then [source] else [target]
  | .nested body => Operation.accessedByAll kind body

/-- The variables that a list of operations accesses in a way, at any depth. -/
def Operation.accessedByAll (kind : AccessKind) : List Operation → List String
  | [] => []
  | operation :: operations =>
    operation.accessed kind ++ Operation.accessedByAll kind operations

end

mutual

/-- A variable that an operation accesses is one that it names. -/
private theorem Operation.mem_mentioned_of_accessed {kind : AccessKind} {name : String}
    (operation : Operation) (h : name ∈ operation.accessed kind) : name ∈ operation.mentioned := by
  cases operation with
  | nested body => exact Operation.mem_mentionedByAll_of_accessed body h
  | read | write | increment | copy =>
    cases kind <;> simp_all [Operation.accessed, Operation.mentioned]

/-- A variable that operations access is one that they name. -/
theorem Operation.mem_mentionedByAll_of_accessed {kind : AccessKind} {name : String}
    (operations : List Operation) (h : name ∈ Operation.accessedByAll kind operations) :
    name ∈ Operation.mentionedByAll operations := by
  cases operations with
  | nil => exact absurd h List.not_mem_nil
  | cons operation operations =>
    rcases List.mem_append.mp h with hhere | hrest
    · exact List.mem_append_left _ (Operation.mem_mentioned_of_accessed operation hhere)
    · exact List.mem_append_right _ (Operation.mem_mentionedByAll_of_accessed operations hrest)

end

namespace Program

/-- The operations of an event; none when there is no such event. -/
def operations (program : Program) (event : Event) : List Operation :=
  (program.events[event.number]?.map (·.operations)).getD []

/-- The variables that an event accesses in a way. -/
def accessed (program : Program) (kind : AccessKind) (event : Event) : List String :=
  Operation.accessedByAll kind (program.operations event)

/-- One of two different events writes a variable that the other reads or writes. -/
def Dependent (program : Program) (first second : Event) : Prop :=
  first ≠ second ∧ ∃ name kind,
    name ∈ program.accessed .write first ∧ name ∈ program.accessed kind second ∨
      name ∈ program.accessed kind first ∧ name ∈ program.accessed .write second

/-- Dependence goes both ways. -/
theorem Dependent.symm {program : Program} {first second : Event}
    (h : program.Dependent first second) : program.Dependent second first := by
  obtain ⟨hne, name, kind, hwrites | hwritten⟩ := h
  · exact ⟨hne.symm, name, kind, Or.inr hwrites.symm⟩
  · exact ⟨hne.symm, name, kind, Or.inl hwritten.symm⟩

/-- Only an event of the program accesses variables. -/
private theorem lt_length_of_mem_accessed {program : Program} {kind : AccessKind} {event : Event}
    {name : String} (h : name ∈ program.accessed kind event) :
    event.number < program.events.length := by
  refine Nat.lt_of_not_le fun hbound => ?_
  simp [accessed, operations, List.getElem?_eq_none hbound, Operation.accessedByAll] at h

/-- Dependent events are events of the program. -/
theorem Dependent.lt_length {program : Program} {first second : Event}
    (h : program.Dependent first second) :
    first.number < program.events.length ∧ second.number < program.events.length := by
  obtain ⟨-, name, kind, ⟨hfirst, hsecond⟩ | ⟨hfirst, hsecond⟩⟩ := h
  · exact ⟨lt_length_of_mem_accessed hfirst, lt_length_of_mem_accessed hsecond⟩
  · exact ⟨lt_length_of_mem_accessed hfirst, lt_length_of_mem_accessed hsecond⟩

/-- An access to the variable of that name, when one is declared. -/
def accessTo? (program : Program) (kind : AccessKind) (name : String) : Option Access :=
  (program.variableIndex? name).bind fun slot =>
    program.declarations[slot]?.map (·.access kind)

/-- Every variable has a position. -/
def Resolves (program : Program) (names : List String) : Prop :=
  ∀ name ∈ names, (program.variableIndex? name).isSome = true

/-- The access to a declared variable names it, and only its kind depends on the way of accessing
it. -/
theorem exists_accessTo? {program : Program} {name : String}
    (h : (program.variableIndex? name).isSome = true) :
    ∃ owner, ∀ kind, program.accessTo? kind name = some ⟨kind, name, owner⟩ := by
  obtain ⟨slot, hslot⟩ := Option.isSome_iff_exists.mp h
  obtain ⟨hbound, hname, -⟩ := List.findIdx?_eq_some_iff_getElem.mp hslot
  refine ⟨program.declarations[slot].owner, fun kind => ?_⟩
  simp only [accessTo?, hslot, Option.bind_some, List.getElem?_eq_getElem hbound, Option.map_some,
    Variable.access, beq_iff_eq.mp hname]

/-- An access names the variable that it is to. -/
theorem field_of_accessTo? {program : Program} {kind : AccessKind} {name : String}
    {access : Access} (h : program.accessTo? kind name = some access) : access.field = name := by
  cases hslot : program.variableIndex? name with
  | none => simp [accessTo?, hslot] at h
  | some slot =>
    obtain ⟨owner, hto⟩ := exists_accessTo? (Option.isSome_iff_exists.mpr ⟨slot, hslot⟩)
    rw [hto, Option.some.injEq] at h
    exact h ▸ rfl

/-- An event performs an access when it accesses the variable in that way. -/
def Touches (program : Program) (event : Event) (access : Access) : Prop :=
  ∃ name ∈ program.accessed access.kind event, program.accessTo? access.kind name = some access

/-- Different events that access one location are dependent when one of them writes it. -/
theorem dependent_of_touches {program : Program} {first second : Event} {access other : Access}
    (hne : first ≠ second) (hfirst : program.Touches first access)
    (hsecond : program.Touches second other) (hfield : access.field = other.field)
    (hwrite : access.kind = .write ∨ other.kind = .write) : program.Dependent first second := by
  obtain ⟨name, haccessed, hto⟩ := hfirst
  obtain ⟨otherName, hotherAccessed, hotherTo⟩ := hsecond
  have hname : name = otherName := by
    rw [← field_of_accessTo? hto, ← field_of_accessTo? hotherTo, hfield]
  subst hname
  rcases hwrite with hwrites | hwritten
  · exact ⟨hne, name, other.kind, Or.inl ⟨hwrites ▸ haccessed, hotherAccessed⟩⟩
  · exact ⟨hne, name, access.kind, Or.inr ⟨haccessed, hwritten ▸ hotherAccessed⟩⟩

end Program

/-- What is observed of a variable is the access to it. -/
private theorem mem_observed {program : Program} {name : String} {slot : Nat}
    (hslot : program.variableIndex? name = some slot) {active : ActivePoint} {kind : AccessKind}
    {access : Access} :
    access ∈ (observed program.declarations active kind slot).filterMap (·.access) ↔
      access.kind = kind ∧ program.accessTo? access.kind name = some access := by
  obtain ⟨owner, hto⟩ := Program.exists_accessTo? (Option.isSome_iff_exists.mpr ⟨slot, hslot⟩)
  have hhere := hto kind
  obtain ⟨accessKind, field, accessOwner⟩ := access
  simp only [Program.accessTo?, hslot, Option.bind_some, Option.map_eq_some_iff] at hhere
  obtain ⟨shared, hshared, heq⟩ := hhere
  simp only [observed, hshared, List.filterMap_cons, List.filterMap_nil, List.mem_singleton, heq,
    hto, Option.some.injEq, Access.mk.injEq]
  constructor
  · rintro ⟨rfl, rfl, rfl⟩
    exact ⟨rfl, by simp⟩
  · rintro ⟨rfl, -, rfl, rfl⟩
    exact ⟨rfl, rfl, rfl⟩

mutual

/-- The accesses observed while an operation runs are those to the variables that it accesses. -/
private theorem mem_observations {program : Program} (point : PointId) (access : Access)
    (operation : Operation) (hresolves : program.Resolves operation.mentioned)
    (active : ActivePoint) :
    ∃ instruction, operation.resolve? program.variableIndex? = some instruction ∧
      (access ∈ (instruction.observations program.declarations point active).filterMap (·.access) ↔
        ∃ name ∈ operation.accessed access.kind,
          program.accessTo? access.kind name = some access) := by
  have hposition (name : String) (hname : name ∈ operation.mentioned) :
      ∃ slot, program.variableIndex? name = some slot :=
    Option.isSome_iff_exists.mp (hresolves name hname)
  cases operation with
  | read name =>
    obtain ⟨slot, hslot⟩ := hposition name (by simp [Operation.mentioned])
    refine ⟨.read slot, by simp [Operation.resolve?, hslot], ?_⟩
    simp only [Instruction.observations, mem_observed hslot, Operation.accessed]
    split <;> simp_all
  | write name value =>
    obtain ⟨slot, hslot⟩ := hposition name (by simp [Operation.mentioned])
    refine ⟨.write slot value, by simp [Operation.resolve?, hslot], ?_⟩
    simp only [Instruction.observations, mem_observed hslot, Operation.accessed]
    split <;> simp_all
  | increment name modulus =>
    obtain ⟨slot, hslot⟩ := hposition name (by simp [Operation.mentioned])
    refine ⟨.increment slot modulus, by simp [Operation.resolve?, hslot], ?_⟩
    simp only [Instruction.observations, List.filterMap_append, List.mem_append, mem_observed hslot,
      Operation.accessed]
    cases access.kind <;> simp
  | copy source target =>
    obtain ⟨origin, hsource⟩ := hposition source (by simp [Operation.mentioned])
    obtain ⟨slot, htarget⟩ := hposition target (by simp [Operation.mentioned])
    refine ⟨.copy origin slot, by simp [Operation.resolve?, hsource, htarget], ?_⟩
    simp only [Instruction.observations, List.filterMap_append, List.mem_append,
      mem_observed hsource, mem_observed htarget, Operation.accessed]
    cases access.kind <;> simp
  | nested body =>
    refine ⟨_, rfl, ?_⟩
    simp only [Instruction.observations, List.filterMap_cons]
    exact mem_observationsOfAll point access body hresolves (.nested point)

/-- The accesses observed while operations run are those to the variables that they access. -/
theorem mem_observationsOfAll {program : Program} (point : PointId) (access : Access)
    (operations : List Operation)
    (hresolves : program.Resolves (Operation.mentionedByAll operations)) (active : ActivePoint) :
    access ∈ (Instruction.observationsOfAll program.declarations point active
        (Operation.resolveAll program.variableIndex? operations)).filterMap (·.access) ↔
      ∃ name ∈ Operation.accessedByAll access.kind operations,
        program.accessTo? access.kind name = some access := by
  cases operations with
  | nil =>
    simp [Operation.resolveAll, Instruction.observationsOfAll, Operation.accessedByAll]
  | cons operation operations =>
    obtain ⟨instruction, hinstruction, hfirst⟩ := mem_observations point access operation
      (fun name hname => hresolves name (List.mem_append_left _ hname)) active
    have hrest := mem_observationsOfAll point access operations
      (fun name hname => hresolves name (List.mem_append_right _ hname))
      (instruction.activeAfter point active)
    simp only [Operation.resolveAll, hinstruction, Instruction.observationsOfAll,
      List.filterMap_append, List.mem_append, hfirst, hrest, Operation.accessedByAll,
      or_and_right, exists_or]

end

mutual

/-- Without a violation every variable that an operation names is declared. -/
private theorem mem_declared_of_violation?_eq_none {declared : Std.ExtTreeSet String}
    {event : String} (operation : Operation) (h : operation.violation? declared event = none) :
    ∀ name ∈ operation.mentioned, name ∈ declared := by
  have hnames {names : List String} (hnone : undeclared? declared event names = none) :
      ∀ name ∈ names, name ∈ declared := by
    simpa [undeclared?] using hnone
  cases operation with
  | read name => exact hnames h
  | write name value => exact hnames h
  | increment name modulus =>
    simp only [Operation.violation?] at h
    split at h
    · exact absurd h (by simp)
    · exact hnames h
  | copy source target => exact hnames h
  | nested body => exact mem_declared_of_firstViolation?_eq_none body h

/-- Without a violation every variable that operations name is declared. -/
private theorem mem_declared_of_firstViolation?_eq_none {declared : Std.ExtTreeSet String}
    {event : String} (operations : List Operation)
    (h : Operation.firstViolation? declared event operations = none) :
    ∀ name ∈ Operation.mentionedByAll operations, name ∈ declared := by
  intro name hname
  cases operations with
  | nil => exact absurd hname List.not_mem_nil
  | cons operation operations =>
    simp only [Operation.firstViolation?] at h
    split at h
    · exact absurd h (by simp)
    · rename_i hfirst
      rcases List.mem_append.mp hname with hhere | hrest
      · exact mem_declared_of_violation?_eq_none operation hfirst name hhere
      · exact mem_declared_of_firstViolation?_eq_none operations h name hrest

end

/-- Without a violation among events there is none in the body of any. -/
private theorem firstViolation?_of_mem {declared seen : Std.ExtTreeSet String}
    {events : List EventBody} (h : EventBody.firstViolation? declared seen events = none) :
    ∀ event ∈ events, Operation.firstViolation? declared event.name event.operations = none := by
  induction events generalizing seen with
  | nil => exact fun event hevent => absurd hevent List.not_mem_nil
  | cons first events ih =>
    simp only [EventBody.firstViolation?] at h
    split at h
    · exact absurd h (by simp)
    · split at h
      · exact absurd h (by simp)
      · rename_i hfirst
        exact List.forall_mem_cons.mpr ⟨hfirst, ih h⟩

/-- A declared variable has a position. -/
theorem variableIndex?_of_mem_declared {program : Program} {name : String}
    (h : name ∈ program.declared) : (program.variableIndex? name).isSome = true := by
  simpa [Program.declared, Program.variableIndex?] using h

namespace Program

variable {program : Program}

/-- In a well-formed program the body of no event has a violation. -/
theorem firstViolation?_of_violation?_eq_none (h : program.violation? = none) {body : EventBody}
    (hbody : body ∈ program.events) :
    Operation.firstViolation? program.declared body.name body.operations = none := by
  unfold Program.violation? at h
  split at h
  · exact absurd h (by simp)
  · exact firstViolation?_of_mem h body hbody

/-- In a well-formed program every variable that an event names has a position. -/
theorem resolves_of_violation?_eq_none (h : program.violation? = none) (event : Event) :
    program.Resolves (Operation.mentionedByAll (program.operations event)) := by
  intro name hname
  cases hevent : program.events[event.number]? with
  | none => simp [Program.operations, hevent, Operation.mentionedByAll] at hname
  | some body =>
    simp only [Program.operations, hevent, Option.map_some, Option.getD_some] at hname
    have hbody := firstViolation?_of_violation?_eq_none h (List.mem_of_getElem? hevent)
    exact variableIndex?_of_mem_declared
      (mem_declared_of_firstViolation?_eq_none _ hbody name hname)

/-- What an event does are its operations with their variables resolved. -/
theorem body_code (program : Program) (event : Event) :
    program.code.body event =
      Operation.resolveAll program.variableIndex? (program.operations event) := by
  simp only [Code.body, code, operations, List.getElem?_map]
  cases program.events[event.number]? with
  | none => simp [Operation.resolveAll]
  | some body => rfl

/-- The accesses observed while an event of a well-formed program runs are those it performs. -/
theorem mem_observations_iff (h : program.violation? = none) {point : PointId}
    {active : ActivePoint} {event : Event} {access : Access} :
    access ∈ (Instruction.observationsOfAll program.code.declarations point active
        (program.code.body event)).filterMap (·.access) ↔ program.Touches event access := by
  rw [body_code]
  exact mem_observationsOfAll point access (program.operations event)
    (program.resolves_of_violation?_eq_none h event) active

/-- Dependent events of a well-formed program access one location, which one of them writes. -/
theorem Dependent.exists_touches {first second : Event} (h : program.violation? = none)
    (hdependent : program.Dependent first second) :
    ∃ access other, program.Touches first access ∧ program.Touches second other ∧
      other.field = access.field ∧ other.owner = access.owner ∧
        (access.kind = .write ∨ other.kind = .write) := by
  have hlocation {name : String} {event : Event} {kind : AccessKind}
      (hname : name ∈ program.accessed kind event) :
      ∃ owner, ∀ way, program.accessTo? way name = some ⟨way, name, owner⟩ :=
    exists_accessTo? (program.resolves_of_violation?_eq_none h event name
      (Operation.mem_mentionedByAll_of_accessed (program.operations event) hname))
  obtain ⟨-, name, kind, ⟨hfirst, hsecond⟩ | ⟨hfirst, hsecond⟩⟩ := hdependent
  · obtain ⟨owner, hto⟩ := hlocation hfirst
    exact ⟨⟨.write, name, owner⟩, ⟨kind, name, owner⟩, ⟨name, hfirst, hto _⟩,
      ⟨name, hsecond, hto _⟩, rfl, rfl, Or.inl rfl⟩
  · obtain ⟨owner, hto⟩ := hlocation hfirst
    exact ⟨⟨kind, name, owner⟩, ⟨.write, name, owner⟩, ⟨name, hfirst, hto _⟩,
      ⟨name, hsecond, hto _⟩, rfl, rfl, Or.inr rfl⟩

end Program

end EventOrder
