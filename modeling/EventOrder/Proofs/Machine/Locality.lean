import EventOrder.Proofs.Machine.Reachable
import EventOrder.Proofs.Program.Dependence
import Mathlib.Logic.Relation

/-!
# What an event changes and what it depends on

An event changes only the variables that it writes, and what it makes of them depends only on the
variables that it reads. So events that are linked by dependence govern variables of their own: no
other event writes these, and what the linked events make of them depends on nothing else.
-/

namespace EventOrder

mutual

/-- The positions of the variables that an instruction accesses in a way, at any depth. -/
def Instruction.slots (kind : AccessKind) : Instruction → List Nat
  | .read slot => if kind = .read then [slot] else []
  | .write slot _ => if kind = .write then [slot] else []
  | .increment slot _ => [slot]
  | .copy source target => if kind = .read then [source] else [target]
  | .nested body => Instruction.slotsOfAll kind body

/-- The positions of the variables that instructions access in a way, at any depth. -/
def Instruction.slotsOfAll (kind : AccessKind) : List Instruction → List Nat
  | [] => []
  | instruction :: instructions =>
    instruction.slots kind ++ Instruction.slotsOfAll kind instructions

end

mutual

/-- An instruction changes no variable that it does not write. -/
private theorem Instruction.getElem?_effect_of_not_mem {slot : Nat} (instruction : Instruction)
    (h : slot ∉ instruction.slots .write) (values : List Int64) :
    (instruction.effect values)[slot]? = values[slot]? := by
  cases instruction with
  | read => rfl
  | write target | increment target | copy source target =>
    have hne : target ≠ slot := by
      rintro rfl
      simp [slots] at h
    simp [effect, hne]
  | nested body => exact Instruction.getElem?_effectOfAll_of_not_mem body h values

/-- Instructions change no variable that they do not write. -/
theorem Instruction.getElem?_effectOfAll_of_not_mem {slot : Nat} (instructions : List Instruction)
    (h : slot ∉ slotsOfAll .write instructions) (values : List Int64) :
    (effectOfAll instructions values)[slot]? = values[slot]? := by
  cases instructions with
  | nil => rfl
  | cons instruction instructions =>
    simp only [slotsOfAll, List.mem_append, not_or] at h
    rw [effectOfAll, Instruction.getElem?_effectOfAll_of_not_mem instructions h.2,
      Instruction.getElem?_effect_of_not_mem instruction h.1]

end

mutual

/-- When variables agree that include those read, they still agree after an instruction. -/
private theorem Instruction.getElem?_effect_congr {among : Nat → Prop} (instruction : Instruction)
    (hreads : ∀ slot ∈ instruction.slots .read, among slot) {values others : List Int64}
    (h : ∀ slot, among slot → values[slot]? = others[slot]?) :
    ∀ slot, among slot →
      (instruction.effect values)[slot]? = (instruction.effect others)[slot]? := by
  have hset (target : Nat) (value other : Int64) (hsame : value = other) (slot : Nat)
      (hslot : among slot) :
      (values.set target value)[slot]? = (others.set target other)[slot]? := by
    by_cases htarget : target = slot
    · subst htarget
      rw [hsame, List.getElem?_set_self', List.getElem?_set_self', h target hslot]
    · rw [List.getElem?_set_ne htarget, List.getElem?_set_ne htarget, h slot hslot]
  have hvalue (slot : Nat) (hslot : among slot) : valueAt values slot = valueAt others slot := by
    rw [valueAt, valueAt, h slot hslot]
  cases instruction with
  | read => exact h
  | write slot value => exact hset slot value value rfl
  | increment slot modulus =>
    exact hset slot _ _ (by rw [hvalue slot (hreads slot (by simp [slots]))])
  | copy source target =>
    exact hset target _ _ (hvalue source (hreads source (by simp [slots])))
  | nested body => exact Instruction.getElem?_effectOfAll_congr body hreads h

/-- When variables agree that include those read, they still agree after instructions. -/
theorem Instruction.getElem?_effectOfAll_congr {among : Nat → Prop}
    (instructions : List Instruction) (hreads : ∀ slot ∈ slotsOfAll .read instructions, among slot)
    {values others : List Int64} (h : ∀ slot, among slot → values[slot]? = others[slot]?) :
    ∀ slot, among slot →
      (effectOfAll instructions values)[slot]? = (effectOfAll instructions others)[slot]? := by
  cases instructions with
  | nil => exact h
  | cons instruction instructions =>
    refine Instruction.getElem?_effectOfAll_congr instructions
      (fun slot hslot => hreads slot (List.mem_append_right _ hslot)) ?_
    exact Instruction.getElem?_effect_congr instruction
      (fun slot hslot => hreads slot (List.mem_append_left _ hslot)) h

end

mutual

/-- A position that an instruction accesses is that of a variable that its operation accesses. -/
private theorem Operation.exists_accessed_of_mem_slots {position? : String → Option Nat}
    {kind : AccessKind} {slot : Nat} (operation : Operation) {instruction : Instruction}
    (hresolve : operation.resolve? position? = some instruction)
    (hslot : slot ∈ instruction.slots kind) :
    ∃ name ∈ operation.accessed kind, position? name = some slot := by
  cases operation with
  | read name | write name _ | increment name _ =>
    simp only [resolve?, Option.pure_def, Option.bind_eq_bind, Option.bind_eq_some_iff,
      Option.some.injEq] at hresolve
    obtain ⟨target, hposition, rfl⟩ := hresolve
    cases kind <;> simp_all [Instruction.slots, accessed]
  | copy source target =>
    simp only [resolve?, Option.pure_def, Option.bind_eq_bind, Option.bind_eq_some_iff,
      Option.some.injEq] at hresolve
    obtain ⟨origin, hsource, place, htarget, rfl⟩ := hresolve
    cases kind <;> simp_all [Instruction.slots, accessed]
  | nested body =>
    simp only [resolve?, Option.some.injEq] at hresolve
    subst hresolve
    exact Operation.exists_accessed_of_mem_slotsOfAll body hslot

/-- A position that instructions access is that of a variable that their operations access. -/
theorem Operation.exists_accessed_of_mem_slotsOfAll {position? : String → Option Nat}
    {kind : AccessKind} {slot : Nat} (operations : List Operation)
    (hslot : slot ∈ Instruction.slotsOfAll kind (resolveAll position? operations)) :
    ∃ name ∈ accessedByAll kind operations, position? name = some slot := by
  cases operations with
  | nil => exact absurd hslot List.not_mem_nil
  | cons operation operations =>
    simp only [resolveAll] at hslot
    cases hresolve : operation.resolve? position? with
    | none =>
      rw [hresolve] at hslot
      obtain ⟨name, hname, hposition⟩ :=
        Operation.exists_accessed_of_mem_slotsOfAll operations hslot
      exact ⟨name, List.mem_append_right _ hname, hposition⟩
    | some instruction =>
      rw [hresolve] at hslot
      rcases List.mem_append.mp hslot with hfirst | hrest
      · obtain ⟨name, hname, hposition⟩ :=
          Operation.exists_accessed_of_mem_slots operation hresolve hfirst
        exact ⟨name, List.mem_append_left _ hname, hposition⟩
      · obtain ⟨name, hname, hposition⟩ :=
          Operation.exists_accessed_of_mem_slotsOfAll operations hrest
        exact ⟨name, List.mem_append_right _ hname, hposition⟩

end

namespace Program

variable {program : Program} {first second event : Event} {values others : Values} {slot : Nat}

/-- The positions of the variables that an event accesses in a way. -/
def slots (program : Program) (kind : AccessKind) (event : Event) : List Nat :=
  Instruction.slotsOfAll kind (program.code.body event)

/-- Different events that access one position are dependent when one of them writes it. -/
theorem dependent_of_mem_slots {kind : AccessKind} (hne : first ≠ second)
    (hfirst : slot ∈ program.slots .write first) (hsecond : slot ∈ program.slots kind second) :
    program.Dependent first second := by
  have hname {kind : AccessKind} {event : Event} (h : slot ∈ program.slots kind event) :
      ∃ name ∈ program.accessed kind event, program.variableIndex? name = some slot := by
    rw [slots, body_code] at h
    exact Operation.exists_accessed_of_mem_slotsOfAll _ h
  obtain ⟨name, haccessed, hposition⟩ := hname hfirst
  obtain ⟨other, hother, hotherPosition⟩ := hname hsecond
  have hsame : name = other := by
    obtain ⟨_, hnamed, -⟩ := List.findIdx?_eq_some_iff_getElem.mp hposition
    obtain ⟨_, hotherNamed, -⟩ := List.findIdx?_eq_some_iff_getElem.mp hotherPosition
    rw [beq_iff_eq] at hnamed hotherNamed
    exact hnamed.symm.trans hotherNamed
  exact ⟨hne, name, kind, Or.inl ⟨haccessed, hsame ▸ hother⟩⟩

/-- Events are linked when a chain of dependent events leads from one to the other. -/
def Linked (program : Program) : Event → Event → Prop :=
  Relation.ReflTransGen program.Dependent

/-- Links go both ways. -/
theorem Linked.symm (h : program.Linked first second) : program.Linked second first := by
  induction h with
  | refl => exact Relation.ReflTransGen.refl
  | tail _ hstep ih => exact Relation.ReflTransGen.head hstep.symm ih

/-- An event governs a variable when only events linked to it write the variable. -/
def Governs (program : Program) (event : Event) (slot : Nat) : Prop :=
  ∀ other, slot ∈ program.slots .write other → program.Linked event other

/-- Values agree on all variables that an event governs. -/
def Agree (program : Program) (event : Event) (values others : Values) : Prop :=
  ∀ slot, program.Governs event slot → values[slot]? = others[slot]?

/-- An event governs each variable that it writes. -/
theorem governs_of_mem_slots (h : slot ∈ program.slots .write event) :
    program.Governs event slot := by
  intro other hother
  by_cases hsame : event = other
  · exact hsame ▸ Relation.ReflTransGen.refl
  · exact Relation.ReflTransGen.single (dependent_of_mem_slots hsame h hother)

/-- Some event governs a variable: one that writes it, or any event when none does. -/
theorem exists_governs (program : Program) (slot : Nat) :
    ∃ event, program.Governs event slot := by
  by_cases hwritten : ∃ event, slot ∈ program.slots .write event
  · obtain ⟨event, hwrites⟩ := hwritten
    exact ⟨event, governs_of_mem_slots hwrites⟩
  · exact ⟨⟨0⟩, fun other hother => absurd ⟨other, hother⟩ hwritten⟩

/-- A variable that a linked event reads is governed. -/
private theorem governs_of_linked (hlinked : program.Linked event first)
    (h : slot ∈ program.slots .read first) : program.Governs event slot := by
  intro other hother
  by_cases hsame : first = other
  · exact hsame ▸ hlinked
  · exact hlinked.tail (dependent_of_mem_slots (fun heq => hsame heq.symm) hother h).symm

/-- Values that agree still do after a linked event. -/
theorem Agree.next (h : program.Agree event values others)
    (hlinked : program.Linked event first) :
    program.Agree event (program.code.next first values) (program.code.next first others) :=
  Instruction.getElem?_effectOfAll_congr _ (fun _ hslot => governs_of_linked hlinked hslot) h

/-- An event that is not linked leaves the governed variables as they are. -/
theorem agree_next_of_not_linked (hlinked : ¬program.Linked event first) (values : Values) :
    program.Agree event (program.code.next first values) values := by
  intro slot hslot
  exact Instruction.getElem?_effectOfAll_of_not_mem _ (fun hwrites => hlinked (hslot first hwrites))
    values

end Program

end EventOrder
