import EventOrder.Machine.Code
import EventOrder.Number.Power
import EventOrder.Proofs.Machine.Numbering
import Mathlib.Data.Fintype.BigOperators
import Mathlib.Data.List.Perm.Subperm
import Mathlib.Data.Set.Card
import Mathlib.Data.Set.Finite.List

/-!
# Reachable values

The values that a program can come to are those that its events lead to from the initial ones. All
of them are lists of 64-bit integers of one length, so there are finitely many.
-/

namespace EventOrder

mutual

/-- An instruction keeps the number of variables. -/
theorem Instruction.length_effect (instruction : Instruction) (values : List Int64) :
    (instruction.effect values).length = values.length := by
  cases instruction with
  | read slot => rfl
  | write slot value => simp [effect]
  | increment slot modulus => simp [effect]
  | copy source target => simp [effect]
  | nested body =>
    simp only [effect]
    exact Instruction.length_effectOfAll body values

/-- Instructions keep the number of variables. -/
theorem Instruction.length_effectOfAll (instructions : List Instruction) (values : List Int64) :
    (effectOfAll instructions values).length = values.length := by
  cases instructions with
  | nil => rfl
  | cons instruction instructions =>
    simp only [effectOfAll]
    rw [Instruction.length_effectOfAll instructions, Instruction.length_effect instruction]

end

namespace Code

/-- The values after an event. -/
def next (code : Code) (event : Event) (values : Values) : Values :=
  Instruction.effectOfAll (code.body event) values

/-- The values that events lead to from the initial ones. -/
inductive Reachable (code : Code) : Values → Prop
  | initial : Reachable code code.initial
  | step {values : Values} {event : Event} (hreachable : Reachable code values)
      (hevent : event ∈ code.events) : Reachable code (code.next event values)

/-- The set of values that can be reached. -/
def reachable (code : Code) : Set Values := {values | code.Reachable values}

variable {code : Code}

/-- There is a value for every variable. -/
theorem Reachable.length {values : Values} (h : code.Reachable values) :
    values.length = code.declarations.length := by
  induction h with
  | initial => simp [Code.initial]
  | step _ _ ih => rw [next, Instruction.length_effectOfAll, ih]

/-- There are no more 64-bit integers than that. -/
private theorem card_int64 : Finite Int64 ∧ Nat.card Int64 ≤ 2 ^ 64 := by
  have hinjective : Function.Injective fun value : Int64 => value.toBitVec.toFin := by
    intro first second heq
    exact Int64.toBitVec_inj.mp (BitVec.toFin_inj.mp heq)
  refine ⟨Finite.of_injective _ hinjective, ?_⟩
  have hcard := Nat.card_le_card_of_injective _ hinjective
  rwa [Nat.card_fin] at hcard

/-- The reachable values lie among the lists with a value for every variable. -/
private theorem reachable_subset (code : Code) :
    code.reachable ⊆ {values : List Int64 | values.length = code.declarations.length} :=
  fun _ hreachable => Reachable.length hreachable

/-- Finitely many values can be reached. -/
theorem finite_reachable (code : Code) : code.reachable.Finite := by
  have := card_int64.1
  exact (List.finite_length_eq Int64 code.declarations.length).subset code.reachable_subset

/-- There are no more reachable values than lists of 64-bit integers. -/
theorem ncard_reachable_le (code : Code) :
    code.reachable.ncard ≤ (2 ^ 64) ^ code.declarations.length := by
  have hfinite := card_int64.1
  have : Fintype Int64 := Fintype.ofFinite Int64
  have hvectors : Nat.card (List.Vector Int64 code.declarations.length) =
      Nat.card Int64 ^ code.declarations.length := by
    rw [Nat.card_eq_fintype_card, Nat.card_eq_fintype_card]
    exact card_vector _
  have hlists : {values : List Int64 | values.length = code.declarations.length}.ncard =
      Nat.card Int64 ^ code.declarations.length :=
    (Nat.card_coe_set_eq _).symm.trans hvectors
  calc
    code.reachable.ncard ≤
        {values : List Int64 | values.length = code.declarations.length}.ncard :=
      Set.ncard_le_ncard code.reachable_subset (List.finite_length_eq Int64 _)
    _ = Nat.card Int64 ^ code.declarations.length := hlists
    _ ≤ (2 ^ 64) ^ code.declarations.length := Nat.pow_le_pow_left card_int64.2 _

end Code

namespace Machine

/-- Only reachable values have a number. -/
def Explores (machine : Machine) (code : Code) : Prop :=
  ∀ (values : Values) (state : StateId), machine.numbering[values]? = some state →
    code.Reachable values

variable {machine : Machine} {code : Code}

/-- A machine starts in a reachable state. -/
theorem explores_start (code : Code) : (start code.initial).Explores code := by
  intro values state hstate
  rw [start, settle] at hstate
  simp only [Std.ExtTreeMap.getElem?_empty, Std.ExtTreeMap.getElem?_insert,
    Std.compare_eq_iff_eq] at hstate
  split at hstate
  · rename_i hsame
    exact hsame ▸ .initial
  · exact absurd hstate (by simp)

/-- Whether only reachable values have a number depends on the numbers only. -/
theorem Explores.of_numbering_eq {later : Machine} (h : machine.Explores code)
    (hsame : later.numbering = machine.numbering) : later.Explores code :=
  fun values state hstate => h values state (hsame ▸ hstate)

/-- A machine that moves to reachable values explores. -/
theorem Explores.moveTo (h : machine.Explores code) {values : Values}
    (hvalues : code.Reachable values) : (machine.moveTo values).Explores code := by
  intro others state hstate
  rw [getElem?_numbering_moveTo] at hstate
  split at hstate
  · rename_i hsame
    exact hsame ▸ hvalues
  · exact h others state hstate

/-- As many states were settled in as values have a number. -/
theorem ncard_numbering (machine : Machine) :
    {values | values ∈ machine.numbering}.ncard = machine.statesSeen := by
  have hkeys : {values | values ∈ machine.numbering} = ↑machine.numbering.keys.toFinset := by
    ext values
    simp
  rw [hkeys, Set.ncard_coe_finset, List.toFinset_card_of_nodup Std.ExtTreeMap.nodup_keys,
    Std.ExtTreeMap.length_keys, statesSeen]

/-- No more states are numbered than can be reached. -/
theorem Explores.statesSeen_le (h : machine.Explores code) :
    machine.statesSeen ≤ code.reachable.ncard := by
  have hreachable : {values | values ∈ machine.numbering} ⊆ code.reachable := by
    intro values hvalues
    obtain ⟨state, hstate⟩ := Option.isSome_iff_exists.mp
      (Std.ExtTreeMap.mem_iff_isSome_getElem?.mp hvalues)
    exact h values state hstate
  rw [← machine.ncard_numbering]
  exact Set.ncard_le_ncard hreachable code.finite_reachable

/-- When all reachable values are numbered and no others, there are as many states. -/
theorem statesSeen_eq (h : ∀ values, values ∈ machine.numbering ↔ code.Reachable values) :
    machine.statesSeen = code.reachable.ncard := by
  rw [← machine.ncard_numbering]
  exact congrArg Set.ncard (Set.ext h)

/-- Different events in numbered states are no more than states and events allow. -/
theorem Explores.length_firings_le (h : machine.Explores code) (hmachine : machine.Numbered)
    {firings : List Firing} (hdistinct : firings.Nodup)
    (hstate : ∀ firing ∈ firings,
      ∃ values : Values, machine.numbering[values]? = some firing.state)
    (hevent : ∀ firing ∈ firings, firing.event ∈ code.events) :
    firings.length ≤ code.reachable.ncard * code.events.length := by
  let states : List StateId := (List.range machine.statesSeen).map fun number => ⟨number + 1⟩
  let all : List Firing := states.flatMap fun state => code.events.map fun event => ⟨state, event⟩
  have hall : firings ⊆ all := by
    intro firing hfiring
    obtain ⟨values, hvalues⟩ := hstate firing hfiring
    obtain ⟨hpositive, hbound⟩ := hmachine.inRange values _ hvalues
    refine List.mem_flatMap.mpr ⟨firing.state, List.mem_map.mpr ⟨firing.state.number - 1, ?_, ?_⟩,
      List.mem_map.mpr ⟨firing.event, hevent firing hfiring, rfl⟩⟩
    · rw [List.mem_range]
      omega
    · obtain ⟨⟨number⟩, event⟩ := firing
      simp only [StateId.mk.injEq] at hpositive ⊢
      omega
  have hlength : all.length = machine.statesSeen * code.events.length := by
    simp [all, states, List.length_flatMap, Function.comp_def]
  calc
    firings.length ≤ all.length := (hdistinct.subperm hall).length_le
    _ = machine.statesSeen * code.events.length := hlength
    _ ≤ code.reachable.ncard * code.events.length := Nat.mul_le_mul_right _ h.statesSeen_le

end Machine

end EventOrder
