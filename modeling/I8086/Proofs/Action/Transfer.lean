import I8086.Proofs.Action.Basic

/-!
# Moving data, one change after the other

The handlers of the opcodes that move data, on the stack too. Where a register field or a register
operand has no meaning, the handler finds out when it has taken the ModR/M byte and its
displacement, and before it changes anything else.
-/

namespace I8086.Runtime

variable {World : Type}

namespace Action

/-! ## Moves -/

/-- 88-8B: between a register and an operand. -/
def mov (w : Width) (toRegister : Bool) : Action World Unit := do
  let (reg, operand) ← fetchModRM
  if toRegister then
    let v ← readOperand w operand
    writeRegister w reg v
  else
    let v ← readRegister w reg
    writeOperand w operand v

/-- The segment that the lower two bits of a register field name. -/
def segmentOf (reg : RegisterNumber) : Segment := .ofBits ⟨reg.val % 4, Nat.mod_lt _ (by decide)⟩

/-- 8C: from a segment register, of which there are four. -/
def movFromSegment (opcode : Byte) : Action World Unit := do
  let (reg, operand) ← fetchModRM
  if 3 < reg.val then illegal opcode
  let v ← inspect (·.registers.segment (segmentOf reg))
  writeOperand .word operand v

/-- 8E: to a segment register. -/
def movToSegment (opcode : Byte) : Action World Unit := do
  let (reg, operand) ← fetchModRM
  if 3 < reg.val then illegal opcode
  let v ← readOperand .word operand
  change (·.setRegister (segmentOf reg).register v)

/-- B0-BF: an immediate value into a register. -/
def movImmediate (w : Width) (n : RegisterNumber) : Action World Unit := do
  let v ← fetch w
  writeRegister w n v

/-- Opcodes C6 and C7: an immediate value into an operand. Only register field 0 has a meaning. -/
def movImmediateGroup (w : Width) (opcode : Byte) : Action World Unit := do
  let (reg, operand) ← fetchModRM
  if reg.val ≠ 0 then illegal opcode
  let v ← fetch w
  writeOperand w operand v

/-- A0-A3: between the accumulator and a fixed offset. -/
def movAccumulator (w : Width) (toAccumulator : Bool) : Action World Unit := do
  let offset ← fetchWord
  let segment ← dataSegment
  if toAccumulator then
    let v ← inspect (·.load w segment offset)
    writeRegister w .accumulator v
  else
    let v ← readRegister w .accumulator
    change (·.store w segment offset v)

/-- 86, 87: exchanges a register and an operand. -/
def xchg (w : Width) : Action World Unit := do
  let (reg, operand) ← fetchModRM
  let x ← readRegister w reg
  let y ← readOperand w operand
  writeOperand w operand x
  writeRegister w reg y

/-- 90-97: exchanges AX and a register. -/
def xchgAccumulator (n : RegisterNumber) : Action World Unit := do
  let ax ← inspect (·.registers.ax)
  let other ← readRegister .word n
  change (·.setRegister .ax other)
  writeRegister .word n ax

/-- Segment and offset of an operand in memory. -/
def memoryOperand (operand : Operand) (opcode : Byte) : Action World (Segment × Word) :=
  match operand with
  | .memory segment offset => return (segment, offset)
  | .register _ => illegal opcode

/-- 8D: the offset of an operand. -/
def lea (opcode : Byte) : Action World Unit := do
  let (reg, operand) ← fetchModRM
  let (_, offset) ← memoryOperand operand opcode
  writeRegister .word reg offset

/-- Opcodes C4 and C5: a far pointer into a register and a segment register. -/
def loadPointer (target : Segment) (opcode : Byte) : Action World Unit := do
  let (reg, operand) ← fetchModRM
  let (segment, offset) ← memoryOperand operand opcode
  let pointer ← inspect (·.readWord segment offset)
  let selector ← inspect (·.readWord segment (offset + 2))
  writeRegister .word reg pointer
  change (·.setRegister target.register selector)

/-- 9F: the low flags into AH. -/
def lahf : Action World Unit := do
  let v ← inspect (·.flags.pushed.low)
  change (·.setHigh .ax v)

/-- 9E: AH into the low flags. -/
def sahf : Action World Unit := do
  let ah ← inspect (·.registers.high .ax)
  change fun c => { c with flags := c.flags.unpackLow ah }

/-- D7: a byte of a table at BX into AL, which holds its number. -/
def xlat : Action World Unit := do
  let segment ← dataSegment
  let offset ← inspect fun c => c.registers.bx + (c.registers.low .ax).setWidth 16
  let v ← inspect (·.readByte segment offset)
  change (·.setLow .ax v)

/-! ## Ports -/

/-- The number of a port, from DX or from the instruction. -/
def port (fromDx : Bool) : Action World Word := do
  if fromDx then inspect (·.registers.dx)
  else
    let n ← fetchByte
    return n.setWidth 16

/-- E4, E5, EC, ED: reads a port. -/
def input (w : Width) (fromDx : Bool) : Action World Unit := do
  let number ← port fromDx
  match w with
  | .byte => change (·.setLow .ax (Port.readByte number))
  | .word => change (·.setRegister .ax (Port.readWord number))

/-- E6, E7, EE, EF: writes a port, which has no effect. -/
def output (toDx : Bool) : Action World Unit := do
  let _ ← port toDx
  return

/-! ## The stack -/

/-- 50-57: pushes a register. SP is pushed as it is afterwards. -/
def pushRegister (n : RegisterNumber) : Action World Unit := do
  if n = .stackPointer then
    let sp ← inspect (·.registers.sp - 2)
    change (·.setRegister .sp sp)
    change (·.writeWord .ss sp sp)
  else
    let v ← readRegister .word n
    push v

/-- 58-5F: pops a register. -/
def popRegister (n : RegisterNumber) : Action World Unit := do
  let v ← pop
  writeRegister .word n v

/-- 06-1E: pushes a segment register. -/
def pushSegment (s : Segment) : Action World Unit := do
  let v ← inspect (·.registers.segment s)
  push v

/-- 07-1F: pops a segment register. -/
def popSegment (s : Segment) : Action World Unit := do
  let v ← pop
  change (·.setRegister s.register v)

/-- 8F: pops an operand, which is located before the pop. Only register field 0 has a meaning. -/
def popGroup (opcode : Byte) : Action World Unit := do
  let (reg, operand) ← fetchModRM
  if reg.val ≠ 0 then illegal opcode
  let v ← pop
  writeOperand .word operand v

/-- 9C: pushes the flags. -/
def pushf : Action World Unit := do
  let v ← inspect (·.flags.pushed)
  push v

/-- 9D: pops the flags. -/
def popf : Action World Unit := do
  let v ← pop
  setFlags (.unpack v)

end Action

open I8086.Runtime.Action

/-! ## What the handlers come to -/

section

variable (r : Runtime World)

theorem attempt_mov (w : Width) (toRegister : Bool) :
    r.attempt (mov w toRegister) =
      (.ok (), r.pastModRM.carried
        (if toRegister then .mov w (.register r.field) (.place r.place)
        else .mov w r.place (.place (.register r.field)))) := by
  rw [mov, attempt_fetchModRM_bind]
  cases toRegister <;> rfl

theorem attempt_movFromSegment (opcode : Byte) :
    r.attempt (onward (movFromSegment opcode)) =
      r.completed opcode (r.selected .movFromSegment) := by
  rw [movFromSegment, attempt_onward_fetchModRM, selected]
  match r.field with
  | 0 | 1 | 2 | 3 | 4 | 5 | 6 | 7 => rfl

theorem attempt_movToSegment (opcode : Byte) :
    r.attempt (onward (movToSegment opcode)) = r.completed opcode (r.selected .movToSegment) := by
  rw [movToSegment, attempt_onward_fetchModRM, selected]
  match r.field with
  | 0 | 1 | 2 | 3 | 4 | 5 | 6 | 7 => rfl

theorem attempt_movImmediate (w : Width) (n : RegisterNumber) :
    r.attempt (movImmediate w n) =
      (.ok (), (r.skip w.bytes).carried
        (.mov w (.register n) (.immediate (r.code.value w 0)))) := by
  rw [movImmediate, attempt_fetch_bind]
  rfl

/-- The immediate stands after the operand it is written to. -/
theorem attempt_fetch_writeOperand (w : Width) :
    r.pastModRM.attempt (do
      let v ← fetch w
      writeOperand w (r.place.resolve r.pastModRM.cpu.registers) v) =
        (.ok (), (r.skip (r.modRMLength + w.bytes)).carried
          (.mov w r.place (.immediate (r.code.value w r.modRMLength)))) := by
  simp only [attempt_fetch_bind, pastModRM, skip_skip, code_skip, value_drop]
  rfl

theorem attempt_movImmediateGroup (w : Width) (opcode : Byte) :
    r.attempt (onward (movImmediateGroup w opcode)) =
      r.completed opcode (r.selected (.movImmediateGroup w)) := by
  rw [movImmediateGroup, attempt_onward_fetchModRM, selected]
  match r.field with
  | 0 => exact attempt_onward (r.attempt_fetch_writeOperand w) rfl
  | 1 | 2 | 3 | 4 | 5 | 6 | 7 => rfl

theorem attempt_movAccumulator (w : Width) (toAccumulator : Bool) :
    r.attempt (movAccumulator w toAccumulator) =
      (.ok (), (r.skip 2).carried
        (let direct : Place := .memory ⟨r.prefixes.dataSegment, .direct, r.code.word 0⟩
        if toAccumulator then .mov w (.register .accumulator) (.place direct)
        else .mov w direct (.place (.register .accumulator)))) := by
  have direct : (Place.memory ⟨r.prefixes.dataSegment, .direct, r.code.word 0⟩).resolve
      (r.skip 2).cpu.registers = .memory r.prefixes.dataSegment (r.code.word 0) :=
    congrArg (Operand.memory _) (BitVec.zero_add _)
  rw [movAccumulator, attempt_fetchWord_bind, attempt_dataSegment_bind]
  cases toAccumulator with
  | true =>
      simp only [if_true, carried, Cpu.execute, Cpu.readSource, Cpu.read, direct]
      rfl
  | false =>
      simp only [Bool.false_eq_true, if_false, carried, Cpu.execute, Cpu.write, direct]
      rfl

theorem attempt_xchg (w : Width) :
    r.attempt (xchg w) =
      (.ok (), r.pastModRM.carried (.xchg w r.place (.register r.field))) := by
  rw [xchg, attempt_fetchModRM_bind]
  rfl

theorem attempt_xchgAccumulator (n : RegisterNumber) :
    r.attempt (xchgAccumulator n) =
      (.ok (), r.carried (.xchg .word (.register n) (.register .accumulator))) := by
  match n with
  | 0 | 1 | 2 | 3 | 4 | 5 | 6 | 7 => rfl

theorem attempt_lea (opcode : Byte) :
    r.attempt (onward (lea opcode)) = r.completed opcode (r.selected .lea) := by
  rw [lea, attempt_onward_fetchModRM, selected]
  cases r.place <;> rfl

theorem attempt_les (opcode : Byte) :
    r.attempt (onward (loadPointer .es opcode)) = r.completed opcode (r.selected .les) := by
  rw [loadPointer, attempt_onward_fetchModRM, selected]
  cases r.place <;> rfl

theorem attempt_lds (opcode : Byte) :
    r.attempt (onward (loadPointer .ds opcode)) = r.completed opcode (r.selected .lds) := by
  rw [loadPointer, attempt_onward_fetchModRM, selected]
  cases r.place <;> rfl

theorem attempt_lahf : r.attempt lahf = (.ok (), r.carried .lahf) := rfl

theorem attempt_sahf : r.attempt sahf = (.ok (), r.carried .sahf) := rfl

theorem attempt_xlat :
    r.attempt xlat = (.ok (), r.carried (.xlat r.prefixes.dataSegment)) := rfl

theorem attempt_input (w : Width) (fromDx : Bool) :
    r.attempt (input w fromDx) =
      (.ok (), if fromDx then r.carried (.input w .dx)
        else (r.skip 1).carried (.input w (.fixed (r.code 0)))) := by
  cases fromDx with
  | true => cases w <;> rfl
  | false =>
      have number : r.attempt (port false) = (.ok ((r.code 0).setWidth 16), r.skip 1) :=
        r.attempt_fetchByte_bind _
      rw [input, attempt_bind_of_ok number]
      cases w <;> rfl

theorem attempt_output (w : Width) (toDx : Bool) :
    r.attempt (output toDx) =
      (.ok (), if toDx then r.carried (.output w .dx)
        else (r.skip 1).carried (.output w (.fixed (r.code 0)))) := by
  cases toDx with
  | true => rfl
  | false =>
      have number : r.attempt (port false) = (.ok ((r.code 0).setWidth 16), r.skip 1) :=
        r.attempt_fetchByte_bind _
      rw [output, attempt_bind_of_ok number]
      rfl

/-- The two ways of pushing a register are those of pushing any operand. -/
theorem attempt_pushRegister (n : RegisterNumber) :
    r.attempt (pushRegister n) = (.ok (), r.carried (.push (.register n))) := by
  by_cases stackPointer : n = .stackPointer
  · subst stackPointer
    rfl
  · have other : Place.register n ≠ .register .stackPointer := fun same =>
      stackPointer (Place.register.inj same)
    rw [pushRegister, if_neg stackPointer, carried, Cpu.execute, Cpu.pushPlace, if_neg other]
    rfl

theorem attempt_popRegister (n : RegisterNumber) :
    r.attempt (popRegister n) = (.ok (), r.carried (.pop (.register n))) := rfl

theorem attempt_pushSegment (s : Segment) :
    r.attempt (pushSegment s) = (.ok (), r.carried (.pushSegment s)) := rfl

theorem attempt_popSegment (s : Segment) :
    r.attempt (popSegment s) = (.ok (), r.carried (.popSegment s)) := rfl

theorem attempt_popGroup (opcode : Byte) :
    r.attempt (onward (popGroup opcode)) = r.completed opcode (r.selected .popGroup) := by
  rw [popGroup, attempt_onward_fetchModRM, selected]
  match r.field with
  | 0 | 1 | 2 | 3 | 4 | 5 | 6 | 7 => rfl

theorem attempt_pushf : r.attempt pushf = (.ok (), r.carried .pushf) := rfl

theorem attempt_popf : r.attempt popf = (.ok (), r.carried .popf) := rfl

end

end I8086.Runtime
