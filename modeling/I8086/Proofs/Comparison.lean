import I8086.Proofs.Arithmetic
import I8086.Proofs.Operation

/-!
# Conditional jumps after a comparison

`CMP` subtracts its operands and keeps only the flags of the difference. Each of the sixteen
conditional jumps tests these flags for one relation between the operands, as numbers without a
sign, as numbers with a sign, or as the bits of their difference. The relation of signed numbers
is the sign of the difference unless that overflows, and its opposite if it does.
-/

namespace I8086

section Flags

variable {n : Nat}

/-- What a conditional jump tells about two numbers that have been compared. -/
def Condition.Compares (a b : BitVec n) (negated : Bool) (condition : Condition) : Prop :=
  match condition, negated with
  | .overflow, false => ¬IsSigned n (a.toInt - b.toInt)
  | .overflow, true => IsSigned n (a.toInt - b.toInt)
  | .below, false => a.toNat < b.toNat
  | .below, true => b.toNat ≤ a.toNat
  | .zero, false => a = b
  | .zero, true => a ≠ b
  | .belowOrEqual, false => a.toNat ≤ b.toNat
  | .belowOrEqual, true => b.toNat < a.toNat
  | .sign, false => (a - b).msb = true
  | .sign, true => (a - b).msb = false
  | .parity, false => lowOnes (a - b) % 2 = 0
  | .parity, true => lowOnes (a - b) % 2 = 1
  | .less, false => a.toInt < b.toInt
  | .less, true => b.toInt ≤ a.toInt
  | .lessOrEqual, false => a.toInt ≤ b.toInt
  | .lessOrEqual, true => b.toInt < a.toInt

variable (f : Flags) (a b : BitVec n)

/-- The flags after a comparison. -/
def comparison : Flags := (AluOp.cmp.apply f a b).2

/-- The difference that is found in one more bit is that of vectors. -/
theorem value_comparison : (Sum.sub a b false).value = a - b := by
  have none : (BitVec.ofBool false).setWidth n = 0#n := BitVec.setWidth_zero n 1
  rw [Sum.value_sub, none, BitVec.sub_zero]

theorem carry_comparison : (comparison f a b).carry = true ↔ a.toNat < b.toNat := by
  have borrow := Sum.carry_sub_iff a b false
  have below := a.isLt
  have cast := natCast_two_pow n
  rw [Bool.toNat_false, IsUnsigned] at borrow
  refine borrow.trans ?_
  omega

theorem zero_comparison : (comparison f a b).zero = true ↔ a = b := by
  have zero : (comparison f a b).zero = ((Sum.sub a b false).value == 0#n) := rfl
  rw [zero, value_comparison, beq_iff_eq, BitVec.sub_eq_iff_eq_add, BitVec.zero_add]

theorem overflow_comparison (pos : 0 < n) :
    (comparison f a b).overflow = true ↔ ¬IsSigned n (a.toInt - b.toInt) := by
  have overflow := Sum.overflow_sub_iff a b false pos
  rw [Bool.toNat_false, Nat.cast_zero, Int.sub_zero] at overflow
  exact overflow

theorem sign_comparison : (comparison f a b).sign = (a - b).msb :=
  congrArg BitVec.msb (value_comparison a b)

theorem parity_comparison : (comparison f a b).parity = true ↔ lowOnes (a - b) % 2 = 0 := by
  have parity : (comparison f a b).parity = evenParity (Sum.sub a b false).value := rfl
  rw [parity, value_comparison, evenParity_iff]

/-- A difference of signed numbers is negative if its sign says so and it fits, or if its sign does
not say so and it does not fit. -/
theorem less_comparison (pos : 0 < n) :
    ((comparison f a b).sign != (comparison f a b).overflow) = true ↔ a.toInt < b.toInt := by
  have negative := Sum.negative_sub_iff a b false pos
  rw [Bool.toNat_false, Nat.cast_zero, Int.sub_zero, sub_neg] at negative
  exact bne_iff_ne.trans negative

/-- The flags of a comparison meet the condition that its operands meet. -/
theorem holds_comparison (pos : 0 < n) (condition : Condition) :
    condition.holds (comparison f a b) = true ↔ condition.Compares a b false := by
  have carry := carry_comparison f a b
  have zero := zero_comparison f a b
  have less := less_comparison f a b pos
  cases condition with
  | overflow => exact overflow_comparison f a b pos
  | below => exact carry
  | zero => exact zero
  | belowOrEqual =>
      rw [Condition.holds, Bool.or_eq_true, carry, zero, ← BitVec.toNat_inj]
      exact Nat.le_iff_lt_or_eq.symm
  | sign => exact iff_of_eq (congrArg (· = true) (sign_comparison f a b))
  | parity => exact parity_comparison f a b
  | less => exact less
  | lessOrEqual =>
      rw [Condition.holds, Bool.or_eq_true, less, zero, ← BitVec.toInt_inj]
      exact or_comm.trans Int.le_iff_lt_or_eq.symm

/-- The second jump of each pair tells the opposite of the first. -/
theorem compares_true_iff (condition : Condition) :
    condition.Compares a b true ↔ ¬condition.Compares a b false := by
  cases condition with
  | overflow => exact not_not.symm
  | below => exact Nat.not_lt.symm
  | zero => exact Iff.rfl
  | belowOrEqual => exact Nat.not_le.symm
  | sign => exact (iff_of_eq (Bool.not_eq_true _)).symm
  | parity => exact Nat.mod_two_ne_zero.symm
  | less => exact Int.not_lt.symm
  | lessOrEqual => exact Int.not_le.symm

/-- After a comparison a jump is taken exactly if the operands are as it tells. -/
theorem taken_comparison (pos : 0 < n) (condition : Condition) (negated : Bool) :
    (condition.holds (comparison f a b) != negated) = true ↔ condition.Compares a b negated := by
  have holds := holds_comparison f a b pos condition
  cases negated with
  | false => rwa [Bool.bne_false]
  | true => rw [Bool.bne_true, Bool.not_eq_true', compares_true_iff, ← holds, Bool.not_eq_true]

end Flags

/-! ## Encodings -/

namespace Encoding

/-- A conditional jump by a distance. -/
def jumpIf (condition : Condition) (negated : Bool) (distance : Byte) : List Byte :=
  [match condition, negated with
    | .overflow, false => 0x70
    | .overflow, true => 0x71
    | .below, false => 0x72
    | .below, true => 0x73
    | .zero, false => 0x74
    | .zero, true => 0x75
    | .belowOrEqual, false => 0x76
    | .belowOrEqual, true => 0x77
    | .sign, false => 0x78
    | .sign, true => 0x79
    | .parity, false => 0x7A
    | .parity, true => 0x7B
    | .less, false => 0x7C
    | .less, true => 0x7D
    | .lessOrEqual, false => 0x7E
    | .lessOrEqual, true => 0x7F, distance]

theorem decode?_jumpIf (condition : Condition) (negated : Bool) (d : Byte) (p : Prefixes) :
    (Code.ofList (jumpIf condition negated d)).decode? p =
      some (.jumpIf condition negated d.signExtend, (jumpIf condition negated d).length) := by
  refine Code.decode?_ofList (.jumpIf condition negated) ?_ rfl
  cases condition <;> cases negated <;> rfl

end Encoding

/-! ## Comparison and jump -/

namespace Machine

variable {World : Type} {m : Machine World} {w : Width} {target : Place} {source : Source w}
  {length : Nat}

/-- A comparison writes nothing but flags, so the bytes behind it are still there. -/
theorem step_of_comparison (running : m.cpu.halted = false)
    (fetched : m.fetched = .instruction (.alu w .cmp target source) length) :
    m.step.1 = .ok .next ∧ m.step.2.cpu.halted = false ∧
      m.step.2.cpu.flags =
        comparison m.cpu.flags (m.cpu.read w target) (m.cpu.readSource w source) ∧
      m.step.2.cpu.registers.ip = m.cpu.registers.ip + BitVec.ofNat 16 length ∧
      m.step.2.code = m.code.drop length := by
  rw [step_of_next running fetched rfl rfl, ← code_skip]
  exact ⟨rfl, running, rfl, rfl, rfl⟩

/-- Where a conditional jump leads, from the flags that it finds. -/
theorem step_of_jumpIf {condition : Condition} {negated : Bool} {d : Word}
    (running : m.cpu.halted = false)
    (fetched : m.fetched = .instruction (.jumpIf condition negated d) length) :
    m.step.1 = .ok .next ∧
      m.step.2.cpu.registers.ip =
        if condition.holds m.cpu.flags != negated then
          m.cpu.registers.ip + BitVec.ofNat 16 length + d
        else m.cpu.registers.ip + BitVec.ofNat 16 length := by
  rw [step_of_next running fetched rfl rfl]
  refine ⟨rfl, ?_⟩
  simp only [Cpu.registers_relocate, Registers.ip_relocate, Instruction.flow]
  split <;> rfl

/-- The conditional jumps after a comparison. At `CS:IP` stand an encoding of `CMP` and behind it a
conditional jump, either of them perhaps behind prefixes. Two steps carry them out. The jump
is taken exactly if the operands of the comparison are as the jump tells, whatever the flags were
before; then control goes on by its distance behind it, and otherwise right behind it. -/
theorem jump_after_comparison {bytes : List Byte} {condition : Condition} {negated : Bool}
    {d : Byte} (running : m.cpu.halted = false) (compares : m.Operates 7 w target source length)
    (prefixes : ∀ b ∈ bytes, b.IsPrefix) (short : bytes.length < maxPrefixRun)
    (jumps : (m.code.drop length).Holds (bytes ++ Encoding.jumpIf condition negated d)) :
    let a := m.cpu.read w target
    let b := m.cpu.readSource w source
    let behind := m.cpu.registers.ip + BitVec.ofNat 16 (length + (bytes.length + 2))
    m.step.1 = .ok .next ∧ m.step.2.step.1 = .ok .next ∧
      (condition.Compares a b negated →
        m.step.2.step.2.cpu.registers.ip = behind + d.signExtend) ∧
      (¬condition.Compares a b negated → m.step.2.step.2.cpu.registers.ip = behind) := by
  intro a b behind
  obtain ⟨first, running', flags, ip, code⟩ :=
    step_of_comparison running (fetched_iff_operates.mpr compares)
  rw [← code] at jumps
  have fetched := fetched_of_decode? jumps prefixes short
    (Encoding.decode?_jumpIf condition negated d _)
  obtain ⟨second, jumped⟩ := step_of_jumpIf running' fetched
  have taken := taken_comparison m.cpu.flags a b (Nat.zero_lt_of_lt w.four_lt_bits) condition
    negated
  have place : m.step.2.cpu.registers.ip + BitVec.ofNat 16 (bytes.length + 2) = behind := by
    rw [ip, BitVec.add_assoc, ← BitVec.ofNat_add]
  rw [flags, show (Encoding.jumpIf condition negated d).length = 2 from rfl, place] at jumped
  refine ⟨first, second, fun holds => ?_, fun fails => ?_⟩
  · rw [jumped, if_pos (taken.mpr holds)]
  · rw [jumped, if_neg (fun holds => fails (taken.mp holds))]

/-- The greatest signed word compared with a sign-extended byte, -1: their difference does not fit,
and `JG` is taken. -/
theorem jump_after_comparison_of_overflow :
    let m := booted [0x83, 0xF8, 0xFF, 0x7F, 0x10]
    let m := { m with cpu.registers.ax := 0x7FFF }
    m.step.2.step.1 = .ok .next ∧ m.step.2.step.2.cpu.registers.ip = 0x15 := by
  intro _ m
  have holds : m.code.Holds ([0x83, 0xF8, 0xFF] ++ [0x7F, 0x10]) :=
    code_holds_store (m := m) rfl (by decide)
  have operand : Encoding.IsOperand 0xF8 [] := rfl
  have encodes : Encoding.Operates {} 7 .word (.register 0) (.immediate (Byte.signExtend 0xFF))
      [0x83, 0xF8, 0xFF] := .signExtended operand rfl 0xFF
  have compares : m.Operates 7 .word (.register 0) (.immediate (Byte.signExtend 0xFF)) 3 :=
    ⟨[], _, nofun, by decide, holds.left, encodes, rfl⟩
  have jumps : (m.code.drop 3).Holds ([] ++ Encoding.jumpIf .lessOrEqual true 0x10) := holds.right
  obtain ⟨_, next, taken, _⟩ := jump_after_comparison rfl compares (by decide) (by decide) jumps
  refine ⟨next, (taken ?_).trans ?_⟩
  · show ((0xFFFF : Word).toInt < (0x7FFF : Word).toInt)
    decide
  · rfl

end Machine

end I8086
