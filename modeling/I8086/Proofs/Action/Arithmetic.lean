import I8086.Proofs.Action.Basic

/-!
# Arithmetic, one change after the other

The handlers of the arithmetic opcodes. Several of them have parts in common, but each takes its
operands from the instruction stream in its own way, and works on registers along a way of its own.
Beside each handler stands what it comes to: the effect of one instruction, with IP behind it.
-/

namespace I8086.Runtime

variable {World : Type} {n : Nat}

namespace Action

/-! ## Results with flags -/

/-- Applies an operation to two values and sets the flags. -/
def apply (op : AluOp) (x y : BitVec n) : Action World (BitVec n) := do
  let result ← inspect fun c => op.apply c.flags x y
  setFlags result.2
  return result.1

/-- Adds one to a value or subtracts one from it, and sets the flags but CF. -/
def increase (down : Bool) (v : BitVec n) : Action World (BitVec n) := do
  let result ← inspect fun c => if down then decrement c.flags v else increment c.flags v
  setFlags result.2
  return result.1

/-- Sets the flags for a bitwise result. -/
def setLogical (v : BitVec n) : Action World Unit := change fun c =>
  { c with flags := c.flags.withLogical v }

/-! ## Two operands -/

/-- 00-3B: an operation between a register and an operand. -/
def alu (op : AluOp) (w : Width) (toRegister : Bool) : Action World Unit := do
  let (reg, operand) ← fetchModRM
  let x ← readRegister w reg
  let y ← readOperand w operand
  if toRegister then
    let v ← apply op x y
    unless op.isComparison do writeRegister w reg v
  else
    let v ← apply op y x
    unless op.isComparison do writeOperand w operand v

/-- 04-3D: an operation on the accumulator and an immediate value. -/
def aluAccumulator (op : AluOp) (w : Width) : Action World Unit := do
  let v ← fetch w
  let accumulator ← readRegister w .accumulator
  let result ← apply op accumulator v
  unless op.isComparison do writeRegister w .accumulator result

/-- An operation on an operand and a value. -/
def aluOperand (op : AluOp) (w : Width) (operand : Operand) (v : w.Value) : Action World Unit := do
  let x ← readOperand w operand
  let result ← apply op x v
  unless op.isComparison do writeOperand w operand result

/-- 80-83: an operation on an operand and an immediate value, which is extended from a byte in the
last of them. -/
def aluGroup (w : Width) (signExtended : Bool) : Action World Unit := do
  let (reg, operand) ← fetchModRM
  let op := AluOp.ofNumber reg
  match w with
  | .byte =>
    let v ← fetchByte
    aluOperand op .byte operand v
  | .word =>
    if signExtended then
      let v ← fetchByte
      aluOperand op .word operand v.signExtend
    else
      let v ← fetchWord
      aluOperand op .word operand v

/-- 84, 85: the flags of an operand and a register. -/
def test (w : Width) : Action World Unit := do
  let (reg, operand) ← fetchModRM
  let x ← readRegister w reg
  let y ← readOperand w operand
  setLogical (y &&& x)

/-- A8, A9: the flags of the accumulator and an immediate value. -/
def testAccumulator (w : Width) : Action World Unit := do
  let v ← fetch w
  let accumulator ← readRegister w .accumulator
  setLogical (accumulator &&& v)

/-! ## One operand -/

/-- 40-4F: one more or one less in a register. -/
def increaseRegister (n : RegisterNumber) (down : Bool) : Action World Unit := do
  let v ← readRegister .word n
  let result ← increase down v
  writeRegister .word n result

/-- FE: one more or one less in a byte. The other register fields have no meaning. -/
def stepGroup (opcode : Byte) : Action World Unit := do
  let (reg, operand) ← fetchModRM
  let down ← match reg with
    | 0 => pure false
    | 1 => pure true
    | _ => illegal opcode
  let v ← readOperand .byte operand
  let result ← increase down v
  writeOperand .byte operand result

/-- The flags of an operand and an immediate value. The operand is read before the value is
taken. -/
def testImmediate (w : Width) (operand : Operand) : Action World Unit := do
  let x ← readOperand w operand
  let v ← fetch w
  setLogical (x &&& v)

/-- All bits the other way round. -/
def invert (w : Width) (operand : Operand) : Action World Unit := do
  let v ← readOperand w operand
  writeOperand w operand (~~~v)

/-- The difference from zero. -/
def negate (w : Width) (operand : Operand) : Action World Unit := do
  let v ← readOperand w operand
  let result ← inspect fun c => I8086.negate c.flags v
  setFlags result.2
  writeOperand w operand result.1

/-- Multiplies the accumulator and sets the flags if the product needs its upper half. -/
def multiply (w : Width) (product : BitVec (w.bits + w.bits)) (wide : Bool) :
    Action World Unit := do
  change (·.setWide w product)
  change fun c => { c with flags := c.flags.withWide wide }

/-- Replaces the double accumulator by quotient and remainder. Where there are none, a divide error
is raised. -/
def divide (w : Width) (result : Option (BitVec (w.bits + w.bits))) : Action World Step := do
  match result with
  | some v =>
    change (·.setWide w v)
    return .next
  | none => raise divideVector

/-- Combines the accumulator with an operand. A repeat prefix negates what is signed. -/
def multiplyDivide (w : Width) (reg : RegisterNumber) (operand : Operand) :
    Action World Step := do
  let source ← readOperand w operand
  let negated ← repeats
  match reg with
  | 4 =>
    let product ← inspect fun c => unsignedProduct (c.accumulator w) source
    multiply w product (unsignedWide product)
    return .next
  | 5 =>
    let product ← inspect fun c => signedProduct (c.accumulator w) source negated
    multiply w product (signedWide product)
    return .next
  | 6 =>
    let result ← inspect fun c => unsignedDivide? (c.wide w) source
    divide w result
  | _ =>
    let result ← inspect fun c => signedDivide? (c.wide w) source negated
    divide w result

/-- F6, F7: the operations on one operand. -/
def unaryGroup (w : Width) : Action World Step := do
  let (reg, operand) ← fetchModRM
  match reg with
  | 0 | 1 =>
    testImmediate w operand
    return .next
  | 2 =>
    invert w operand
    return .next
  | 3 =>
    negate w operand
    return .next
  | reg => multiplyDivide w reg operand

/-- 98: extends AL into AX. -/
def cbw : Action World Unit := do
  let al ← inspect (·.registers.low .ax)
  change (·.setRegister .ax al.signExtend)

/-- 99: extends AX into DX. -/
def cwd : Action World Unit := do
  let ax ← inspect (·.registers.ax)
  change (·.setRegister .dx (if ax.msb then 0xFFFF else 0))

/-! ## Shifts -/

/-- D0-D3: a shift by one or by CL. A count of zero does not even read the operand. -/
def shiftGroup (w : Width) (byCl : Bool) : Action World Unit := do
  let (reg, operand) ← fetchModRM
  let count ← inspect fun c => if byCl then (c.registers.low .cx).toNat else 1
  if count = 0 then return
  let v ← readOperand w operand
  let result ← inspect fun c => (ShiftOp.ofNumber reg).apply c.flags v count
  setFlags result.2
  writeOperand w operand result.1

/-! ## Decimal numbers -/

/-- 27, 2F: adjusts AL and the flags. -/
def adjustPacked (f : Byte → Flags → Byte × Flags) : Action World Unit := do
  let result ← inspect fun c => f (c.registers.low .ax) c.flags
  change (·.setLow .ax result.1)
  setFlags result.2

/-- 37, 3F: adjusts AX and the flags. -/
def adjustUnpacked (f : Word → Flags → Word × Flags) : Action World Unit := do
  let result ← inspect fun c => f c.registers.ax c.flags
  change (·.setRegister .ax result.1)
  setFlags result.2

/-- D4: splits AL into two digits. A base of zero sets the flags for a result of zero and raises a
divide error. -/
def aam : Action World Step := do
  let base ← fetchByte
  let result ← inspect fun c => Decimal.split? c.registers.ax base c.flags
  match result with
  | some (ax, flags) =>
    change (·.setRegister .ax ax)
    setFlags flags
    return .next
  | none =>
    change fun c => { c with flags := c.flags.withResult (0 : Byte) }
    raise divideVector

/-- D5: joins two digits in AL. -/
def aad : Action World Unit := do
  let base ← fetchByte
  adjustUnpacked fun ax flags => Decimal.join ax base flags

end Action

open I8086.Runtime.Action

/-! ## What the handlers come to -/

section

variable (r : Runtime World)

theorem attempt_alu (op : AluOp) (w : Width) (toRegister : Bool) :
    r.attempt (alu op w toRegister) =
      (.ok (), r.pastModRM.carried
        (if toRegister then .alu w op (.register r.field) (.place r.place)
        else .alu w op r.place (.place (.register r.field)))) := by
  rw [alu, attempt_fetchModRM_bind]
  cases toRegister <;> cases op <;> rfl

theorem attempt_aluAccumulator (op : AluOp) (w : Width) :
    r.attempt (aluAccumulator op w) =
      (.ok (), (r.skip w.bytes).carried
        (.alu w op (.register .accumulator) (.immediate (r.code.value w 0)))) := by
  rw [aluAccumulator, attempt_fetch_bind]
  cases op <;> rfl

theorem attempt_aluOperand (op : AluOp) (w : Width) (p : Place) (v : w.Value) :
    r.attempt (aluOperand op w (p.resolve r.cpu.registers) v) =
      (.ok (), r.carried (.alu w op p (.immediate v))) := by
  cases op <;> rfl

theorem attempt_aluGroup (w : Width) (signExtended : Bool) :
    r.attempt (aluGroup w signExtended) =
      (.ok (), match w, signExtended with
        | .byte, _ => (r.pastModRM.skip 1).carried
          (.alu .byte (.ofNumber r.field) r.place (.immediate (r.pastModRM.code 0)))
        | .word, true => (r.pastModRM.skip 1).carried
          (.alu .word (.ofNumber r.field) r.place (.immediate (r.pastModRM.code 0).signExtend))
        | .word, false => (r.pastModRM.skip 2).carried
          (.alu .word (.ofNumber r.field) r.place (.immediate (r.pastModRM.code.word 0)))) := by
  rw [aluGroup, attempt_fetchModRM_bind]
  cases w with
  | byte => simp only [attempt_fetchByte_bind, ← resolve_skip r.pastModRM 1, attempt_aluOperand]
  | word =>
      cases signExtended with
      | true =>
          simp only [if_true, attempt_fetchByte_bind, ← resolve_skip r.pastModRM 1,
            attempt_aluOperand]
      | false =>
          simp only [Bool.false_eq_true, if_false, attempt_fetchWord_bind,
            ← resolve_skip r.pastModRM 2, attempt_aluOperand]

theorem attempt_test (w : Width) :
    r.attempt (test w) =
      (.ok (), r.pastModRM.carried (.test w r.place (.place (.register r.field)))) := by
  rw [test, attempt_fetchModRM_bind]
  rfl

theorem attempt_testAccumulator (w : Width) :
    r.attempt (testAccumulator w) =
      (.ok (), (r.skip w.bytes).carried
        (.test w (.register .accumulator) (.immediate (r.code.value w 0)))) := by
  rw [testAccumulator, attempt_fetch_bind]
  rfl

/-- The instructions that add one and subtract one. -/
def increasing (down : Bool) (w : Width) (p : Place) : Instruction :=
  if down then .dec w p else .inc w p

theorem attempt_increaseRegister (n : RegisterNumber) (down : Bool) :
    r.attempt (increaseRegister n down) =
      (.ok (), r.carried (increasing down .word (.register n))) := by
  cases down <;> rfl

theorem attempt_stepGroup (opcode : Byte) :
    r.attempt (onward (stepGroup opcode)) = r.completed opcode (r.selected .stepGroup) := by
  rw [stepGroup, attempt_onward_fetchModRM, selected]
  match r.field with
  | 0 | 1 | 2 | 3 | 4 | 5 | 6 | 7 => rfl

theorem attempt_testImmediate (w : Width) (p : Place) :
    r.attempt (testImmediate w (p.resolve r.cpu.registers)) =
      (.ok (), (r.skip w.bytes).carried (.test w p (.immediate (r.code.value w 0)))) := by
  rw [testImmediate, attempt_readOperand_bind, attempt_fetch_bind, ← readOperand_skip r w.bytes,
    ← resolve_skip r w.bytes]
  rfl

theorem attempt_divide (w : Width) (result : Option (BitVec (w.bits + w.bits))) :
    r.attempt (divide w result) =
      { r with cpu := (r.cpu.divided w result).1 }.follow (r.cpu.divided w result).2 := by
  cases result <;> rfl

/-- The operations of the group that combine its operand with the accumulator. -/
def combining (w : Width) (p : Place) (negated : Bool) (reg : RegisterNumber) : Instruction :=
  match reg with
  | 4 => .mul w p
  | 5 => .imul w p negated
  | 6 => .div w p
  | _ => .idiv w p negated

theorem attempt_multiplyDivide (w : Width) (reg : RegisterNumber) (p : Place) :
    r.attempt (multiplyDivide w reg (p.resolve r.cpu.registers)) =
      r.carryOut (combining w p r.prefixes.repeats reg) := by
  rw [multiplyDivide, attempt_readOperand_bind, attempt_repeats_bind]
  match reg with
  | 4 | 5 => cases w <;> rfl
  | 6 => exact r.attempt_divide w _
  | 0 | 1 | 2 | 3 | 7 => exact r.attempt_divide w _

theorem attempt_unaryGroup (w : Width) :
    r.attempt (unaryGroup w) =
      (r.pastModRM.skip (if r.field.val ≤ 1 then w.bytes else 0)).carryOut
        (.ofUnary w r.prefixes r.place (r.pastModRM.code.value w 0) r.field) := by
  have tested := r.pastModRM.attempt_testImmediate w r.place
  have combined := r.pastModRM.attempt_multiplyDivide w r.field r.place
  rw [unaryGroup, attempt_fetchModRM_bind]
  revert combined
  match r.field with
  | 0 | 1 =>
      intro _
      exact attempt_bind_of_ok tested fun () => pure Step.next
  | 2 | 3 =>
      intro _
      rw [if_neg (by decide), skip_zero]
      rfl
  | 4 | 5 | 6 | 7 =>
      intro combined
      rw [if_neg (by decide), skip_zero]
      exact combined

theorem attempt_cbw : r.attempt cbw = (.ok (), r.carried .cbw) := rfl

theorem attempt_cwd : r.attempt cwd = (.ok (), r.carried .cwd) := rfl

theorem attempt_shiftGroup (w : Width) (byCl : Bool) :
    r.attempt (shiftGroup w byCl) =
      (.ok (), r.pastModRM.carried
        (.shift w (.ofNumber r.field) r.place (if byCl then .cl else .one))) := by
  rw [shiftGroup, attempt_fetchModRM_bind]
  cases byCl with
  | false => rfl
  | true =>
      simp only [if_true, attempt_inspect_bind]
      unfold carried Cpu.execute Cpu.shift
      dsimp only
      by_cases none : (r.pastModRM.cpu.registers.low .cx).toNat = 0
      · rw [if_pos none, if_pos none]
        rfl
      · rw [if_neg none, if_neg none]
        rfl

theorem attempt_daa :
    r.attempt (adjustPacked Decimal.packedAdd) = (.ok (), r.carried .daa) := rfl

theorem attempt_das :
    r.attempt (adjustPacked Decimal.packedSub) = (.ok (), r.carried .das) := rfl

theorem attempt_aaa :
    r.attempt (adjustUnpacked Decimal.unpackedAdd) = (.ok (), r.carried .aaa) := rfl

theorem attempt_aas :
    r.attempt (adjustUnpacked Decimal.unpackedSub) = (.ok (), r.carried .aas) := rfl

theorem attempt_aam : r.attempt aam = (r.skip 1).carryOut (.aam (r.code 0)) := by
  rw [aam, attempt_fetchByte_bind, attempt_inspect_bind]
  simp only [carryOut, carried, Cpu.execute]
  cases Decimal.split? (r.skip 1).cpu.registers.ax (r.code 0) (r.skip 1).cpu.flags <;> rfl

theorem attempt_aad : r.attempt aad = (.ok (), (r.skip 1).carried (.aad (r.code 0))) := by
  rw [aad, attempt_fetchByte_bind]
  rfl

end

end I8086.Runtime
