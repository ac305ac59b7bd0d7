import I8086.Proofs.Arithmetic
import I8086.Proofs.FlagFrame
import Mathlib.Logic.Function.Iterate

/-!
# Shifts step by step

The count of a shift is not reduced, so a shift by CL is as many shifts by one. Each operation has a
form of its own for any count, and the theorem says that it is the iteration of its single steps, CF
included. What is different is OF, which single steps define and longer shifts leave alone.
-/

namespace I8086

/-! ## One more step -/

section Rotations

variable {n : Nat} (x : BitVec n) (a b : Nat)

theorem rotateLeft_rotateLeft : (x.rotateLeft a).rotateLeft b = x.rotateLeft (a + b) := by
  refine BitVec.eq_of_getMsbD_eq fun i inside => ?_
  have below (k : Nat) : k % n < n := Nat.mod_lt k (Nat.zero_lt_of_lt inside)
  simp only [BitVec.getMsbD_rotateLeft, inside, below, decide_true, Bool.true_and,
    Nat.add_mod_mod, Nat.add_assoc]

/-- A rotation to the right reads its bits further up, and from the bottom again at the end. -/
theorem getLsbD_rotateRight_eq (i : Nat) :
    (x.rotateRight a).getLsbD i = (decide (i < n) && x.getLsbD ((a + i) % n)) := by
  by_cases inside : i < n
  · have below : a % n < n := Nat.mod_lt a (Nat.zero_lt_of_lt inside)
    rw [BitVec.getLsbD_rotateRight, ← Nat.mod_add_mod]
    by_cases near : i < n - a % n
    · rw [Nat.mod_eq_of_lt (by omega : a % n + i < n)]
      simp only [near, inside, decide_true, cond_true, Bool.true_and]
    · rw [Nat.mod_eq_sub_mod (by omega : n ≤ a % n + i),
        Nat.mod_eq_of_lt (by omega : a % n + i - n < n),
        show i - (n - a % n) = a % n + i - n by omega]
      simp only [near, inside, decide_true, decide_false, cond_false, Bool.true_and]
  · rw [BitVec.getLsbD_of_ge _ _ (Nat.le_of_not_lt inside)]
    simp only [inside, decide_false, Bool.false_and]

theorem rotateRight_rotateRight : (x.rotateRight a).rotateRight b = x.rotateRight (a + b) := by
  refine BitVec.eq_of_getLsbD_eq fun i inside => ?_
  have below (k : Nat) : k % n < n := Nat.mod_lt k (Nat.zero_lt_of_lt inside)
  simp only [getLsbD_rotateRight_eq, inside, below, decide_true, Bool.true_and,
    Nat.add_mod_mod, Nat.add_assoc]

/-- The top bit is the first to go out of a shift to the left. -/
theorem setWidth_shiftLeft_one (wide : BitVec (n + 1)) :
    (wide.setWidth n).setWidth (n + 1) <<< 1 = wide <<< 1 := by
  refine BitVec.eq_of_getLsbD_eq fun i inside => ?_
  have below : i - 1 < n + 1 := by omega
  simp only [BitVec.getLsbD_shiftLeft, BitVec.getLsbD_setWidth, below, decide_true, Bool.true_and]
  by_cases first : i < 1
  · simp only [first, decide_true, Bool.not_true, Bool.and_false, Bool.false_and]
  · have lower : i - 1 < n := by omega
    simp only [lower, decide_true, Bool.true_and]

end Rotations

namespace ShiftOp

variable {n : Nat} (op : ShiftOp)

/-- A shift by one more position is one more step, which starts with the carry of the others. -/
theorem shift_succ (x : BitVec n) (count : Nat) (carry : Bool) :
    op.shift x (count + 1) carry =
      op.shift (op.shift x count carry).value 1 (op.shift x count carry).carry := by
  cases op with
  | rol => simp only [shift, rotateLeft_rotateLeft]
  | ror => simp only [shift, rotateRight_rotateRight]
  | rcl =>
      simp only [shift, Shifted.rotateCarryLeft, Shifted.ofWide, BitVec.cons_msb_setWidth,
        rotateLeft_rotateLeft]
  | rcr =>
      simp only [shift, Shifted.rotateCarryRight, Shifted.ofWide, BitVec.cons_msb_setWidth,
        rotateRight_rotateRight]
  | shl => simp only [shift, Shifted.ofWide, setWidth_shiftLeft_one, BitVec.shiftLeft_add]
  | shr =>
      simp only [shift, BitVec.shiftRight_add, BitVec.getLsbD_ushiftRight, Nat.add_sub_cancel,
        Nat.sub_self, Nat.add_zero]
  | sar =>
      simp only [shift, BitVec.sshiftRight_add, Nat.add_sub_cancel, Nat.sub_self,
        BitVec.sshiftRight_zero]

/-- A single step, with the flags that it finds and leaves. -/
def step (r : BitVec n × Flags) : BitVec n × Flags := op.apply r.2 r.1 1

/-- One more step continues a shift, whatever OF is in between, and only OF is not as after it. -/
theorem apply_succ (f : Flags) (x : BitVec n) (count : Nat) (o : Bool) :
    let r := op.apply f x count
    let s := op.step (r.1, { r.2 with overflow := o })
    op.apply f x (count + 1) =
      (s.1, { s.2 with overflow := (op.apply f x (count + 1)).2.overflow }) := by
  cases count with
  | zero => cases op <;> rfl
  | succ count =>
      -- Of the flags in between only CF has a part in the next step.
      simp only [step, apply, Nat.succ_ne_zero, if_false, op.shift_succ x (count + 1)]
      cases op <;> rfl

/-- A shift by any count is that many steps, except for OF. -/
theorem apply_eq_steps (f : Flags) (x : BitVec n) (count : Nat) :
    let r := op.step^[count] (x, f)
    op.apply f x count = (r.1, { r.2 with overflow := (op.apply f x count).2.overflow }) := by
  induction count with
  | zero => rfl
  | succ count ih =>
      rw [Function.iterate_succ_apply']
      have more := op.apply_succ f x count (op.step^[count] (x, f)).2.overflow
      rw [ih] at more
      exact more

/-- A single step is a shift by one, and longer ones leave OF as they found it. -/
theorem overflow_apply (f : Flags) (x : BitVec n) (count : Nat) :
    (op.apply f x count).2.overflow =
      if count = 1 then (op.step^[count] (x, f)).2.overflow else f.overflow := by
  by_cases one : count = 1
  · rw [one, if_pos rfl]
    rfl
  · rw [if_neg one]
    have kept : Flag.overflow ∉ op.flagsSet count := by
      intro set
      rcases Instruction.mem_flagsSet_shift set with carry | ⟨_, single⟩ | ⟨result, _⟩
      · cases carry
      · exact one single
      · exact absurd result (by decide)
    exact get_apply x kept

end ShiftOp

/-! ## Writing again -/

theorem Memory.set_set (m : Memory) (a : Address) (v v' : Byte) :
    (m.set a v).set a v' = m.set a v' := by
  refine ext_get fun b => ?_
  rw [get_set, get_set, get_set]
  split <;> rfl

theorem Registers.set_set (r : Registers) (name : Register) (v v' : Word) :
    (r.set name v).set name v' = r.set name v' := by
  cases name <;> rfl

theorem Registers.write_write (r : Registers) (w : Width) (k : RegisterNumber) (v v' : w.Value) :
    (r.write w k v).write w k v' = r.write w k v' := by
  cases w with
  | byte =>
      simp only [write, setByte]
      split
      · rw [setHigh, low_setHigh, setHigh, set_set, setHigh]
      · rw [setLow, high_setLow, setLow, set_set, setLow]
  | word => exact r.set_set k.register v v'

namespace Cpu

variable (c : Cpu) (w : Width) (target : Place)

/-- Of two results written to one place the second remains. -/
theorem writeWithFlags_writeWithFlags (r r' : w.Value × Flags) :
    (c.writeWithFlags w target r).writeWithFlags w target r' = c.writeWithFlags w target r' := by
  cases target with
  | register k =>
      have same := c.registers.write_write w k r.1 r'.1
      exact congrArg (fun registers => { c with registers, flags := r'.2 }) same
  | memory a =>
      cases w with
      | byte =>
          have same := c.memory.set_set (c.address a.segment (a.offset c.registers)) r.1 r'.1
          exact congrArg (fun memory => { c with memory, flags := r'.2 }) same
      | word =>
          exact writeWord_writeWord { c with flags := r'.2 } a.segment (a.offset c.registers)
            r.1 r'.1

theorem read_with_flags (g : Flags) :
    ({ c with flags := g } : Cpu).read w target = c.read w target := by
  cases target with
  | register => rfl
  | memory => cases w <;> rfl

theorem writeWithFlags_with_flags (r : w.Value × Flags) (g : Flags) :
    { c.writeWithFlags w target r with flags := g } = c.writeWithFlags w target (r.1, g) := by
  cases target with
  | register => rfl
  | memory => cases w <;> rfl

/-- The result of single steps is found by single steps from the value and the flags alone. -/
theorem iterate_shift_one (op : ShiftOp) {count : Nat} (moved : 0 < count) :
    (fun c => (c.execute (.shift w op target .one)).1)^[count] c =
      c.writeWithFlags w target (op.step^[count] (c.read w target, c.flags)) := by
  induction moved with
  | refl => rfl
  | step moved ih =>
      rw [Function.iterate_succ_apply', Function.iterate_succ_apply', ih]
      generalize op.step^[_] (c.read w target, c.flags) = r
      -- Writing moves no operand, so each step finds what the one before it has left.
      have found : (c.writeWithFlags w target r).read w target = r.1 := read_write _ w target r.1
      change (c.writeWithFlags w target r).writeWithFlags w target
        (op.step ((c.writeWithFlags w target r).read w target,
          (c.writeWithFlags w target r).flags)) = _
      rw [found, flags_writeWithFlags, writeWithFlags_writeWithFlags]

/-- A shift by CL leaves the state of as many shifts by one, except for OF. -/
theorem shift_cl_eq_iterate (op : ShiftOp) :
    let count := (c.registers.low .cx).toNat
    let stepped := (fun c => (c.execute (.shift w op target .one)).1)^[count] c
    (c.execute (.shift w op target .cl)).1 =
      { stepped with
        flags := { stepped.flags with
          overflow := if count = 1 then stepped.flags.overflow else c.flags.overflow } } := by
  intro count stepped
  change (if count = 0 then c
    else c.writeWithFlags w target (op.apply c.flags (c.read w target) count)) = _
  by_cases none : count = 0
  · have still : stepped = c := by
      simp only [stepped, none, Function.iterate_zero, id]
    rw [if_pos none, still, none]
    rfl
  · have result := op.apply_eq_steps c.flags (c.read w target) count
    rw [op.overflow_apply] at result
    have steps : stepped = _ := c.iterate_shift_one w target op (Nat.pos_of_ne_zero none)
    have flags : stepped.flags = _ := (congrArg Cpu.flags steps).trans (flags_writeWithFlags ..)
    rw [if_neg none, flags, steps]
    exact (congrArg (c.writeWithFlags w target) result).trans (writeWithFlags_with_flags ..).symm

/-! ## Shifts as they are encoded -/

/-- A shift or rotate by CL does what as many single ones do one after the other, for every
operation, operand, incoming flags and count. Its whole effect is theirs, apart from OF: that one
it leaves alone unless it is a single step itself. AF and the flags that control the processor stay
as they are, with rotates also ZF, SF and PF, and a shift by zero does nothing at all. -/
theorem shift_cl_eq_single_shifts (w : Width) (p : Prefixes) {m : Byte} {displacement : List Byte}
    (operand : Encoding.IsOperand m displacement) :
    let op := ShiftOp.ofNumber (ModRM.ofByte m).reg
    let target := Encoding.operandPlace p m displacement
    let one := Instruction.shift w op target .one
    let byCl := Instruction.shift w op target .cl
    (Code.ofList (Encoding.sized 0xD0 w :: m :: displacement)).decode? p =
      some (one, displacement.length + 2) ∧
    (Code.ofList (Encoding.sized 0xD2 w :: m :: displacement)).decode? p =
      some (byCl, displacement.length + 2) ∧
    ∀ c : Cpu,
      let count := (c.registers.low .cx).toNat
      let stepped := (fun c => (c.execute one).1)^[count] c
      let shifted := (c.execute byCl).1
      shifted.read w target = stepped.read w target ∧
      shifted.flags.carry = stepped.flags.carry ∧
      shifted =
        { stepped with
          flags := { stepped.flags with
            overflow := if count = 1 then stepped.flags.overflow else c.flags.overflow } } ∧
      (op.isRotate = true → ∀ flag ∈ Flags.ofResult,
        shifted.flags.get flag = c.flags.get flag) ∧
      (∀ flag ∈ [Flag.aux, .trap, .interrupt, .direction],
        shifted.flags.get flag = c.flags.get flag) ∧
      (count = 0 → shifted = c) := by
  intro op target one byCl
  refine ⟨Encoding.decode?_shift operand false, Encoding.decode?_shift operand true, ?_⟩
  intro c count stepped shifted
  have same := c.shift_cl_eq_iterate w target op
  refine ⟨?_, congrArg (fun c => c.flags.carry) same, same, ?_, ?_, ?_⟩
  · exact (congrArg (fun c => c.read w target) same).trans (read_with_flags ..)
  · intro rotates flag result
    refine get_flags_execute fun set => ?_
    rcases Instruction.mem_flagsSet_shift set with rfl | ⟨rfl, _⟩ | ⟨_, shifts⟩
    · exact absurd result (by decide)
    · exact absurd result (by decide)
    · exact Bool.false_ne_true (shifts.symm.trans rotates)
  · intro flag control
    refine get_flags_execute fun set => ?_
    rcases Instruction.mem_flagsSet_shift set with rfl | ⟨rfl, _⟩ | ⟨result, _⟩
    · exact absurd control (by decide)
    · exact absurd control (by decide)
    · have apart : ∀ flag ∈ [Flag.aux, .trap, .interrupt, .direction], flag ∉ Flags.ofResult := by
        decide
      exact apart flag control result
  · intro none
    exact (c.shift_eq w op target .cl).trans (if_pos none)

/-- A byte and CF are nine bits, so nine single steps of `RCL` bring all of them back. -/
theorem shift_cl_eq_single_shifts_of_full_turn :
    let c : Cpu := { registers := { ax := 0x81, cx := 9 }, flags := { carry := true } }
    let one := Instruction.shift .byte .rcl (.register .accumulator) .one
    let stepped := (fun c => (c.execute one).1)^[9] c
    stepped.read .byte (.register .accumulator) = 0x81 ∧ stepped.flags.carry = true := by
  have turned : let c : Cpu := { registers := { ax := 0x81, cx := 9 }, flags := { carry := true } }
      let shifted := (c.execute (.shift .byte .rcl (.register .accumulator) .cl)).1
      shifted.read .byte (.register .accumulator) = 0x81 ∧ shifted.flags.carry = true := by
    decide
  have operand : Encoding.IsOperand 0xD0 [] := rfl
  have operation : ShiftOp.ofNumber (ModRM.ofByte 0xD0).reg = .rcl := by decide
  have target : Encoding.operandPlace {} 0xD0 [] = .register .accumulator := by decide
  obtain ⟨_, _, every⟩ := shift_cl_eq_single_shifts .byte {} operand
  rw [operation, target] at every
  obtain ⟨value, carry, _⟩ := every
    { registers := { ax := 0x81, cx := 9 }, flags := { carry := true } }
  exact ⟨value.symm.trans turned.1, carry.symm.trans turned.2⟩

end Cpu

end I8086
