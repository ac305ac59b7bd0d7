import I8086.Proofs.Action.Control
import I8086.Proofs.Action.Transfer

/-!
# Pairs of handlers

Many operations on a register or on the accumulator have a handler of their own beside the one that
takes a ModR/M byte, and works on it along another way. Behind a ModR/M byte that names this
register, both do the same: they come to one instruction.
-/

namespace I8086.Runtime

variable {World : Type} (r : Runtime World) (opcode : Byte)

open I8086.Runtime.Action

/-- The ModR/M byte at IP has this register field, and its place is this register. -/
structure Names (field n : RegisterNumber) : Prop where
  field : r.field = field
  place : r.place = .register n

variable {r} {n : RegisterNumber}

/-- What the ModR/M byte has completed an opcode to, and what another handler does behind it. -/
theorem completed_eq_attempt {action : Action World Unit} {i : Instruction}
    {found : Option (Instruction × Nat)} (decoded : found = some (i, r.modRMLength))
    (done : r.pastModRM.attempt action = (.ok (), r.pastModRM.carried i))
    (goesOn : (r.pastModRM.cpu.execute i).2 = .next) :
    r.completed opcode found = r.pastModRM.attempt (onward action) := by
  rw [attempt_onward done goesOn, decoded]
  rfl

/-- FF pushes a register like 50-57, which both take care of SP. -/
theorem indirectGroup_pushRegister (names : r.Names 6 n) :
    r.attempt (onward (indirectGroup opcode)) = r.pastModRM.attempt (onward (pushRegister n)) := by
  rw [attempt_indirectGroup, selected, names.field, names.place]
  exact completed_eq_attempt opcode rfl (attempt_pushRegister _ n) rfl

/-- 8F pops a register like 58-5F. -/
theorem popGroup_popRegister (names : r.Names 0 n) :
    r.attempt (onward (popGroup opcode)) = r.pastModRM.attempt (onward (popRegister n)) := by
  rw [attempt_popGroup, selected, names.field, names.place]
  exact completed_eq_attempt opcode rfl (attempt_popRegister _ n) rfl

/-- FF counts a register up like 40-47. -/
theorem indirectGroup_increaseRegister (names : r.Names 0 n) :
    r.attempt (onward (indirectGroup opcode)) =
      r.pastModRM.attempt (onward (increaseRegister n false)) := by
  rw [attempt_indirectGroup, selected, names.field, names.place]
  exact completed_eq_attempt opcode rfl (attempt_increaseRegister _ n false) rfl

/-- FF counts a register down like 48-4F. -/
theorem indirectGroup_decreaseRegister (names : r.Names 1 n) :
    r.attempt (onward (indirectGroup opcode)) =
      r.pastModRM.attempt (onward (increaseRegister n true)) := by
  rw [attempt_indirectGroup, selected, names.field, names.place]
  exact completed_eq_attempt opcode rfl (attempt_increaseRegister _ n true) rfl

/-- Opcodes C6 and C7 put an immediate value into a register like B0-BF. -/
theorem movImmediateGroup_movImmediate (w : Width) (names : r.Names 0 n) :
    r.attempt (onward (movImmediateGroup w opcode)) =
      r.pastModRM.attempt (onward (movImmediate w n)) := by
  have moved := attempt_onward (r.pastModRM.attempt_movImmediate w n) rfl
  rw [pastModRM, skip_skip, code_skip, value_drop] at moved
  rw [attempt_movImmediateGroup, selected, names.field, names.place]
  exact moved.symm

/-- 87 exchanges AX and a register like 90-97. -/
theorem xchg_xchgAccumulator (names : r.Names 0 n) :
    r.attempt (xchg .word) = r.pastModRM.attempt (xchgAccumulator n) := by
  rw [attempt_xchg, attempt_xchgAccumulator, names.field, names.place]
  rfl

/-- So it does the other way round. -/
theorem xchg_xchgAccumulator_symm (names : r.Names n 0) :
    r.attempt (xchg .word) = r.pastModRM.attempt (xchgAccumulator n) := by
  rw [attempt_xchg, attempt_xchgAccumulator, names.field, names.place]
  match n with
  | 0 | 1 | 2 | 3 | 4 | 5 | 6 | 7 => rfl

/-- 80 and 81 combine the accumulator with an immediate value like 04-3D. -/
theorem aluGroup_aluAccumulator (w : Width) {field : RegisterNumber} (names : r.Names field 0) :
    r.attempt (aluGroup w false) = r.pastModRM.attempt (aluAccumulator (.ofNumber field) w) := by
  rw [attempt_aluGroup, attempt_aluAccumulator, names.field, names.place]
  cases w <;> rfl

/-- F6 and F7 test the accumulator like A8 and A9. -/
theorem unaryGroup_testAccumulator (w : Width) (names : r.Names 0 0) :
    r.attempt (unaryGroup w) = r.pastModRM.attempt (onward (testAccumulator w)) := by
  have tested := attempt_onward (r.pastModRM.attempt_testAccumulator w) rfl
  rw [attempt_unaryGroup, tested, names.field, names.place]
  rfl

/-- 88-8B move the accumulator to and from a fixed offset like A0-A3, which take the offset only. -/
theorem mov_movAccumulator (w : Width) (toRegister : Bool)
    (direct : ModRM.ofByte (r.code 0) = ⟨0, .accumulator, 6⟩) :
    r.attempt (mov w toRegister) = (r.skip 1).attempt (movAccumulator w toRegister) := by
  have field : r.field = .accumulator := congrArg ModRM.reg direct
  have place : r.place = .memory ⟨r.prefixes.dataSegment, .direct, r.code.word 1⟩ := by
    rw [Runtime.place, direct]
    rfl
  have length : r.modRMLength = 3 := by
    rw [modRMLength, direct]
    rfl
  rw [attempt_mov, attempt_movAccumulator, pastModRM, field, place, length, skip_skip, code_skip]
  rfl

/-- A shift by CL is a shift by one if CL is one. -/
theorem shiftGroup_one (w : Width) (one : r.cpu.registers.low .cx = 1) :
    r.attempt (shiftGroup w true) = r.attempt (shiftGroup w false) := by
  have count : (r.pastModRM.cpu.registers.low .cx).toNat = 1 := congrArg BitVec.toNat one
  rw [shiftGroup, shiftGroup, attempt_fetchModRM_bind, attempt_fetchModRM_bind,
    attempt_inspect_bind, attempt_inspect_bind, if_pos rfl, count]
  rfl

/-- E9 jumps by an extended distance like EB, from a place one byte behind. -/
theorem jumpNear_jumpShort {s : Runtime World} (ip : r.cpu.registers.ip = s.cpu.registers.ip)
    (distance : r.code.word 0 = (s.code 0).signExtend) :
    ∃ target, s.attempt jumpShort = (.ok (), { s with cpu := s.cpu.jump target }) ∧
      r.attempt jumpNear = (.ok (), { r with cpu := r.cpu.jump (target + 1) }) := by
  refine ⟨s.cpu.registers.ip + 1 + (s.code 0).signExtend, s.attempt_jumpShort, ?_⟩
  have target : s.cpu.registers.ip + 1 + (s.code 0).signExtend + 1 =
      r.cpu.registers.ip + 2 + r.code.word 0 := by
    rw [ip, distance]
    bv_omega
  rw [attempt_jumpNear, target]
  rfl

/-- Opcodes C2 and CA release nothing like C3 and CB if they are told so. -/
theorem ret_releasing (far : Bool) (nothing : r.code.word 0 = 0) :
    r.attempt (ret far true) = (r.skip 2).attempt (ret far false) := by
  rw [attempt_ret, attempt_ret, nothing]
  rfl

end I8086.Runtime
