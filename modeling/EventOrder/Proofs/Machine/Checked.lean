import EventOrder.Proofs.Machine.Reachable

/-!
# Running with checks

The effect of an instruction is defined on all positions, moduli and values: a variable that does
not exist reads as zero, and a residue is computed for every modulus. Here the same instructions run
with checks. Every access must be to a variable that exists and that has a value, no remainder may
be taken by zero, and no result may leave the range of 64 bits. With positions in range and positive
moduli no check fails, and the values and observations are those of the run without checks.
-/

namespace EventOrder

/-- What can go wrong while instructions run. -/
inductive Fault where
  /-- There is no variable at the position. -/
  | outOfBounds (slot : Nat)
  /-- A remainder by zero was to be taken. -/
  | zeroModulus
  /-- The result needs more than 64 bits. -/
  | overflow
deriving DecidableEq, Repr

/-! ## Arithmetic -/

/-- The sum, if it is in range. -/
def sum? (value other : Int64) : Except Fault Int64 :=
  let sum := value.toInt + other.toInt
  if Int64.minValue.toInt ≤ sum ∧ sum ≤ Int64.maxValue.toInt then .ok (.ofInt sum)
  else .error .overflow

/-- Whether a division is defined: not by zero, nor of the least value by minus one. -/
def checkDivision (value modulus : Int64) : Except Fault Unit :=
  if modulus = 0 then .error .zeroModulus
  else if value = Int64.minValue ∧ modulus = -1 then .error .overflow
  else .ok ()

/-- The remainder of a division that rounds towards zero. -/
def truncatedRemainder? (value modulus : Int64) : Except Fault Int64 := do
  checkDivision value modulus
  return value % modulus

/-- The remainder that is not negative. -/
def euclideanRemainder? (value modulus : Int64) : Except Fault Int64 := do
  checkDivision value modulus
  return .ofInt (value.toInt % modulus.toInt)

/-- The value after an increment: the old value is reduced, one is added, and the sum is reduced
again. -/
def increment? (value modulus : Int64) : Except Fault Int64 := do
  let reduced ← euclideanRemainder? value modulus
  let sum ← sum? reduced 1
  truncatedRemainder? sum modulus

variable {modulus : Int64}

/-- A positive modulus divides every value. -/
theorem checkDivision_of_pos (hmodulus : 0 < modulus) (value : Int64) :
    checkDivision value modulus = .ok () := by
  have hpositive := Int64.lt_iff_toInt_lt.mp hmodulus
  have hzero : modulus ≠ 0 := by
    rintro rfl
    exact absurd hpositive (by decide)
  have hnegative : modulus ≠ -1 := by
    rintro rfl
    exact absurd hpositive (by decide)
  simp [checkDivision, hzero, hnegative]

/-- An increment by a positive modulus leads to the next residue. -/
theorem toInt_nextResidue (hmodulus : 0 < modulus) (value : Int64) :
    (nextResidue value modulus).toInt = (value.toInt + 1) % modulus.toInt := by
  have hpositive := Int64.lt_iff_toInt_lt.mp hmodulus
  rw [Int64.toInt_zero] at hpositive
  have hbound := modulus.toInt_lt
  have hleast := Int.emod_nonneg (value.toInt % modulus.toInt + 1) (Int.ne_of_gt hpositive)
  have hless := Int.emod_lt_of_pos (value.toInt % modulus.toInt + 1) hpositive
  rw [nextResidue, Int64.toInt_ofInt_of_le (by omega) (by omega), Int.emod_add_emod]

/-- No step of an increment by a positive modulus leaves the range of 64 bits, whatever the old
value is. -/
theorem increment?_eq (hmodulus : 0 < modulus) (value : Int64) :
    increment? value modulus = .ok (nextResidue value modulus) := by
  have hpositive := Int64.lt_iff_toInt_lt.mp hmodulus
  rw [Int64.toInt_zero] at hpositive
  have hbound := modulus.toInt_lt
  have hleast := Int.emod_nonneg value.toInt (Int.ne_of_gt hpositive)
  have hless := Int.emod_lt_of_pos value.toInt hpositive
  have hreduced : (Int64.ofInt (value.toInt % modulus.toInt)).toInt =
      value.toInt % modulus.toInt := Int64.toInt_ofInt_of_le (by omega) (by omega)
  have hsum : sum? (.ofInt (value.toInt % modulus.toInt)) 1 =
      .ok (.ofInt (value.toInt % modulus.toInt + 1)) := by
    have hone : (1 : Int64).toInt = 1 := rfl
    have hrange : Int64.minValue.toInt ≤ value.toInt % modulus.toInt + 1 ∧
        value.toInt % modulus.toInt + 1 ≤ Int64.maxValue.toInt := by
      rw [Int64.toInt_minValue, Int64.toInt_maxValue]
      omega
    simp only [sum?, hreduced, hone, hrange, and_self, if_true]
  have hagain : Int64.ofInt (value.toInt % modulus.toInt + 1) % modulus =
      nextResidue value modulus := by
    apply Int64.toInt_inj.mp
    rw [Int64.toInt_mod, Int64.toInt_ofInt_of_le (by omega) (by omega),
      Int.tmod_eq_emod_of_nonneg (by omega), Int.emod_add_emod, toInt_nextResidue hmodulus]
  simp only [increment?, euclideanRemainder?, truncatedRemainder?, checkDivision_of_pos hmodulus,
    bind, Except.bind, pure, Except.pure, hsum, hagain]

/-! ## Instructions -/

/-- The value of the variable at a position, which must exist. -/
def load? (values : Values) (slot : Nat) : Except Fault Int64 :=
  match values[slot]? with
  | some value => .ok value
  | none => .error (.outOfBounds slot)

/-- The values once the variable at a position, which must exist, was given another one. -/
def store? (values : Values) (slot : Nat) (value : Int64) : Except Fault Values :=
  if slot < values.length then .ok (values.set slot value) else .error (.outOfBounds slot)

/-- The observed access to the variable at a position, which must exist. -/
def observation? (declarations : List Variable) (active : ActivePoint) (kind : AccessKind)
    (slot : Nat) : Except Fault Observation :=
  match declarations[slot]? with
  | some shared => .ok ⟨active, some (shared.access kind)⟩
  | none => .error (.outOfBounds slot)

mutual

/-- Runs an instruction with checks: the values afterwards and what is observed. -/
def Instruction.perform? (declarations : List Variable) (point : PointId) (active : ActivePoint) :
    Instruction → Values → Except Fault (Values × List Observation)
  | .read slot, values => do
    return (values, [← observation? declarations active .read slot])
  | .write slot value, values => do
    let values ← store? values slot value
    return (values, [← observation? declarations active .write slot])
  | .increment slot modulus, values => do
    let first ← observation? declarations active .read slot
    let values ← store? values slot (← increment? (← load? values slot) modulus)
    return (values, [first, ← observation? declarations active .write slot])
  | .copy source target, values => do
    let first ← observation? declarations active .read source
    let values ← store? values target (← load? values source)
    return (values, [first, ← observation? declarations active .write target])
  | .nested body, values => do
    let (values, observations) ←
      Instruction.performAll? declarations point (.nested point) body values
    return (values, ⟨.nested point, none⟩ :: observations)

/-- Runs instructions with checks, one after the other. -/
def Instruction.performAll? (declarations : List Variable) (point : PointId)
    (active : ActivePoint) :
    List Instruction → Values → Except Fault (Values × List Observation)
  | [], values => return (values, [])
  | instruction :: instructions, values => do
    let (values, first) ← instruction.perform? declarations point active values
    let (values, rest) ← Instruction.performAll? declarations point
      (instruction.activeAfter point active) instructions values
    return (values, first ++ rest)

end

mutual

/-- The positions of an instruction are below a bound, and its moduli are positive. -/
def Instruction.Sound (count : Nat) : Instruction → Prop
  | .read slot => slot < count
  | .write slot _ => slot < count
  | .increment slot modulus => slot < count ∧ 0 < modulus
  | .copy source target => source < count ∧ target < count
  | .nested body => Instruction.SoundAll count body

/-- All instructions are sound. -/
def Instruction.SoundAll (count : Nat) : List Instruction → Prop
  | [] => True
  | instruction :: instructions =>
    instruction.Sound count ∧ Instruction.SoundAll count instructions

end

variable {declarations : List Variable}

/-- The value of a variable in range can be read. -/
theorem load?_of_lt {values : Values} {slot : Nat} (hslot : slot < values.length) :
    load? values slot = .ok (valueAt values slot) := by
  simp [load?, valueAt, hslot]

/-- The access to a variable in range is observed. -/
theorem exists_observation? {slot : Nat} (hslot : slot < declarations.length) (active : ActivePoint)
    (kind : AccessKind) :
    ∃ observation, observation? declarations active kind slot = .ok observation ∧
      observed declarations active kind slot = [observation] := by
  simp [observation?, observed, hslot]

mutual

/-- A sound instruction runs without a fault. -/
theorem Instruction.perform?_of_sound (instruction : Instruction)
    (hsound : instruction.Sound declarations.length) {values : Values}
    (hvalues : values.length = declarations.length) (point : PointId) (active : ActivePoint) :
    instruction.perform? declarations point active values =
      .ok (instruction.effect values, instruction.observations declarations point active) := by
  cases instruction with
  | read slot =>
    obtain ⟨first, hfirst, hobserved⟩ := exists_observation? hsound active .read
    simp only [perform?, hfirst, effect, observations, hobserved]
    rfl
  | write slot value =>
    have hslot : slot < values.length := hvalues ▸ hsound
    obtain ⟨first, hfirst, hobserved⟩ := exists_observation? hsound active .write
    simp only [perform?, store?, hslot, if_true, hfirst, effect, observations, hobserved]
    rfl
  | increment slot modulus =>
    have hslot : slot < values.length := hvalues ▸ hsound.1
    obtain ⟨first, hfirst, hread⟩ := exists_observation? hsound.1 active .read
    obtain ⟨second, hsecond, hwritten⟩ := exists_observation? hsound.1 active .write
    simp only [perform?, store?, load?_of_lt hslot, increment?_eq hsound.2, hslot, if_true, hfirst,
      hsecond, effect, observations, hread, hwritten]
    rfl
  | copy source target =>
    have hsource : source < values.length := hvalues ▸ hsound.1
    have htarget : target < values.length := hvalues ▸ hsound.2
    obtain ⟨first, hfirst, hread⟩ := exists_observation? hsound.1 active .read
    obtain ⟨second, hsecond, hwritten⟩ := exists_observation? hsound.2 active .write
    simp only [perform?, store?, load?_of_lt hsource, htarget, if_true, hfirst, hsecond, effect,
      observations, hread, hwritten]
    rfl
  | nested body =>
    simp only [perform?, Instruction.performAll?_of_sound body hsound hvalues point, effect,
      observations]
    rfl

/-- Sound instructions run without a fault. -/
theorem Instruction.performAll?_of_sound (instructions : List Instruction)
    (hsound : Instruction.SoundAll declarations.length instructions) {values : Values}
    (hvalues : values.length = declarations.length) (point : PointId) (active : ActivePoint) :
    Instruction.performAll? declarations point active instructions values =
      .ok (Instruction.effectOfAll instructions values,
        Instruction.observationsOfAll declarations point active instructions) := by
  cases instructions with
  | nil => rfl
  | cons instruction instructions =>
    have hlength : (instruction.effect values).length = declarations.length :=
      (instruction.length_effect values).trans hvalues
    simp only [performAll?, Instruction.perform?_of_sound instruction hsound.1 hvalues,
      Instruction.performAll?_of_sound instructions hsound.2 hlength, effectOfAll,
      observationsOfAll, bind, Except.bind]
    rfl

end

end EventOrder
