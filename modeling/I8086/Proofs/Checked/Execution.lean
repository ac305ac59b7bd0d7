import I8086.Execution
import I8086.Proofs.Checked.Access
import I8086.Proofs.Checked.Arithmetic
import I8086.Proofs.Checked.Product
import I8086.Proofs.Checked.Shift

/-!
# Executing instructions in the host's numbers

Every instruction again, made of the checked accesses and the checked arithmetic. A repeated string
operation is a loop without a bound of its own, so it gets an allowance of rounds, and running out
of it is a trap: CX is always allowance enough. `execute_eq` sums up that no instruction, whatever
its operands, meets a condition that the host would break on.
-/

namespace I8086

theorem Width.bits_eq (w : Width) : w.bits = 8 ∨ w.bits = 16 := by
  cases w with
  | byte => exact .inl rfl
  | word => exact .inr rfl

namespace Checked

variable (c : Cpu)

/-! ## Families of instructions -/

/-- The double accumulator; for words DX is shifted above AX in 32 bits. -/
def wide : (w : Width) → Checked (BitVec (w.bits + w.bits))
  | .byte => pure c.registers.ax
  | .word => do
    let k ← amount 32 16
    pure ((c.registers.dx.setWidth 32 <<< k) ||| c.registers.ax.setWidth 32)

/-- Replaces the double accumulator; for words DX is shifted down in 32 bits. -/
def setWide : (w : Width) → BitVec (w.bits + w.bits) → Checked Cpu
  | .byte, v => pure { c with registers := { c.registers with ax := v } }
  | .word, v => do
    let k ← amount 32 16
    pure { c with
      registers := { c.registers with dx := (v >>> k).setWidth 16, ax := v.setWidth 16 } }

/-- A two-operand operation. -/
def alu (w : Width) (op : AluOp) (target : Place) (source : Source w) : Checked Cpu := do
  let x ← read c w target
  let y ← readSource c w source
  let result ← apply op c.flags x y
  if op.isComparison then pure { c with flags := result.2 } else writeWithFlags c w target result

/-- Sets the flags for the bitwise conjunction of two operands. -/
def test (w : Width) (left : Place) (right : Source w) : Checked Cpu := do
  let x ← read c w left
  let y ← readSource c w right
  pure { c with flags := c.flags.withLogical (x &&& y) }

/-- Replaces a place by an operation on it that sets flags. -/
def update (w : Width) (target : Place) (operation : w.Value → w.Value × Flags) :
    Checked Cpu := do
  let x ← read c w target
  writeWithFlags c w target (operation x)

/-- Unsigned multiplication into the double accumulator. -/
def mul (w : Width) (source : Place) : Checked Cpu := do
  let y ← read c w source
  let p ← product (c.accumulator w) y
  let used ← upperUsed p
  setWide { c with flags := c.flags.withWide used } w p

/-- Signed multiplication into the double accumulator. -/
def imul (w : Width) (source : Place) (negated : Bool) : Checked Cpu := do
  let y ← read c w source
  let p ← signedProduct (c.accumulator w) y negated
  setWide { c with flags := c.flags.withWide (signedWide p) } w p

/-- Unsigned division of the double accumulator. -/
def div (w : Width) (source : Place) : Checked (Cpu × Signal) := do
  let y ← read c w source
  let x ← wide c w
  let result ← unsignedDivide x y
  pure (c.divided w result)

/-- Signed division of the double accumulator. -/
def idiv (w : Width) (source : Place) (negated : Bool) : Checked (Cpu × Signal) := do
  let y ← read c w source
  let x ← wide c w
  let result ← signedDivide x y negated
  pure (c.divided w result)

/-- A shift by one or by CL. -/
def shiftPlace (w : Width) (op : ShiftOp) (target : Place) (count : ShiftCount) : Checked Cpu :=
  let n := match count with
    | .one => 1
    | .cl => (c.registers.low .cx).toNat
  if n = 0 then pure c
  else do
    let x ← read c w target
    let result ← applyShift op c.flags x n
    writeWithFlags c w target result

/-- Splits AL into two digits, or asks for the interrupt of a division. -/
def aam (base : Byte) : Checked (Cpu × Signal) := do
  let result ← splitDigits c.registers.ax base c.flags
  match result with
  | some result => pure (c.setAxWithFlags result, .next)
  | none => pure ({ c with flags := c.flags.withResult (0 : Byte) }, .interrupt divideVector)

/-- Exchanges two operands. -/
def xchg (w : Width) (left right : Place) : Checked Cpu := do
  let x ← read c w left
  let y ← read c w right
  let c ← write c w left y
  write c w right x

/-- Pushes a word operand. -/
def pushPlace (source : Place) : Checked Cpu :=
  if source = .register .stackPointer then push c (c.registers.sp - 2)
  else do
    let v ← read c .word source
    push c v

/-- Pops a word into a place, which is located before the pop. -/
def popPlace (target : Place) : Checked Cpu := do
  let (v, d) ← pop c
  writeOperand d .word v (target.resolve c.registers)

/-- Pushes IP and continues at another offset. -/
def call (ip : Word) : Checked Cpu := do
  let d ← push c c.registers.ip
  pure (d.jump ip)

/-- Pushes CS and IP and continues in another code segment. -/
def callFar (cs ip : Word) : Checked Cpu := do
  let d ← push c c.registers.cs
  let d ← push d c.registers.ip
  pure (d.jumpFar cs ip)

/-- Returns from a call. -/
def ret (far : Bool) (release : Word) : Checked Cpu := do
  let (ip, c) ← pop c
  if far then
    let (cs, c) ← pop c
    pure ((c.jumpFar cs ip).setRegister .sp (c.registers.sp + release))
  else pure ((c.jump ip).setRegister .sp (c.registers.sp + release))

/-- Returns from an interrupt. -/
def iret : Checked Cpu := do
  let (ip, c) ← pop c
  let (cs, c) ← pop c
  let (flags, c) ← pop c
  pure ({ c with flags := .unpack flags }.jumpFar cs ip)

/-- Enters an interrupt routine. -/
def enterInterrupt (cs ip : Word) : Checked Cpu := do
  let c ← push c c.flags.pushed
  callFar { c with flags := { c.flags with interrupt := false, trap := false } } cs ip

/-! ## Strings -/

/-- The flags of a comparison. -/
def compare {n : Nat} (x y : BitVec n) : Checked Cpu := do
  let result ← apply .cmp c.flags x y
  pure { c with flags := result.2 }

/-- One element of a string operation. -/
def stringElement (w : Width) (op : StringOp) (source : Segment) : Checked Cpu :=
  match op with
  | .movs => do
    let v ← load c w source c.registers.si
    let c ← store c w .es c.registers.di v
    pure ((c.advanceSource w).advanceTarget w)
  | .cmps => do
    let x ← load c w source c.registers.si
    let y ← load c w .es c.registers.di
    let c ← compare c x y
    pure ((c.advanceSource w).advanceTarget w)
  | .stos => do
    let c ← store c w .es c.registers.di (c.accumulator w)
    pure (c.advanceTarget w)
  | .lods => do
    let v ← load c w source c.registers.si
    let c ← writeOperand c w v (.register .accumulator)
    pure (c.advanceSource w)
  | .scas => do
    let y ← load c w .es c.registers.di
    let c ← compare c (c.accumulator w) y
    pure (c.advanceTarget w)

/-- Elements while CX is not zero and a comparison lets the repetition go on. The loop itself has no
bound; it fails if it is not done after `allowance` rounds. -/
def stringLoop (w : Width) (op : StringOp) (source : Segment) (r : Repetition) :
    (allowance : Nat) → Cpu → Checked Cpu
  | 0, c => if c.registers.cx = 0 then pure c else throw .unfinished
  | allowance + 1, c =>
    if c.registers.cx = 0 then pure c
    else do
      let c ← stringElement c w op source
      let c := c.setRegister .cx (c.registers.cx - 1)
      if op.compares && !r.continues c.flags.zero then pure c
      else stringLoop w op source r allowance c

/-- A string operation with its repetition, which may take as many rounds as CX says. -/
def string (w : Width) (op : StringOp) (source : Segment) (repetition : Option Repetition) :
    Checked Cpu :=
  match repetition with
  | none => stringElement c w op source
  | some r => stringLoop w op source r c.registers.cx.toNat c

/-! ## All instructions -/

/-- Goes on after an instruction. -/
def next (result : Checked Cpu) : Checked (Cpu × Signal) := do
  let c ← result
  pure (c, .next)

/-- Carries out an instruction that stands just before IP. -/
def execute (i : Instruction) : Checked (Cpu × Signal) :=
  match i with
  | .alu w op target source => next (alu c w op target source)
  | .test w left right => next (test c w left right)
  | .inc w target => next (update c w target (increment c.flags))
  | .dec w target => next (update c w target (decrement c.flags))
  | .not w target => next do
    let v ← read c w target
    write c w target (~~~v)
  | .neg w target => next (update c w target (negate c.flags))
  | .mul w source => next (mul c w source)
  | .imul w source negated => next (imul c w source negated)
  | .div w source => div c w source
  | .idiv w source negated => idiv c w source negated
  | .shift w op target count => next (shiftPlace c w op target count)
  | .aam base => aam c base
  | .mov w target source => next do
    let v ← readSource c w source
    write c w target v
  | .movFromSegment target s => next (write c .word target (c.registers.segment s))
  | .movToSegment s source => next do
    let v ← read c .word source
    pure (c.setRegister s.register v)
  | .xchg w left right => next (xchg c w left right)
  | .loadPointer s n e => next do
    let (segment, offset) ← readPointer c e
    pure ((c.setRegister n.register offset).setRegister s.register segment)
  | .xlat s => next do
    let v ← readByte c s (c.registers.bx + (c.registers.low .ax).setWidth 16)
    pure (c.setLow .ax v)
  | .push source => next (pushPlace c source)
  | .pop target => next (popPlace c target)
  | .pushSegment s => next (push c (c.registers.segment s))
  | .popSegment s => next do
    let (v, c) ← pop c
    pure (c.setRegister s.register v)
  | .pushf => next (push c c.flags.pushed)
  | .popf => next do
    let (v, c) ← pop c
    pure { c with flags := .unpack v }
  | .jumpTo target => next do
    let ip ← read c .word target
    pure (c.jump ip)
  | .jumpToPointer e => next do
    let (cs, ip) ← readPointer c e
    pure (c.jumpFar cs ip)
  | .call distance => next (call c (c.registers.ip + distance))
  | .callFar cs ip => next (callFar c cs ip)
  | .callTo target => next do
    let ip ← read c .word target
    call c ip
  | .callToPointer e => next do
    let (cs, ip) ← readPointer c e
    callFar c cs ip
  | .ret far release => next (ret c far release)
  | .iret => next (iret c)
  | .string w op source repetition => next (string c w op source repetition)
  -- What is left takes no memory and computes with wrapping numbers only.
  | i => pure (c.execute i)

@[simp] theorem wide_eq (w : Width) : wide c w = pure (c.wide w) := by
  cases w with
  | byte => rfl
  | word =>
      rw [wide, amount_eq (by decide), pure_bind]
      refine congrArg pure (BitVec.eq_of_getLsbD_eq fun i hi => ?_)
      have inside : i < 32 := hi
      unfold Cpu.wide
      rw [BitVec.getLsbD_or, BitVec.getLsbD_shiftLeft, BitVec.getLsbD_setWidth,
        BitVec.getLsbD_setWidth, BitVec.getLsbD_append]
      by_cases lower : i < 16
      · simp [lower, inside]
      · have absent : c.registers.ax.getLsbD i = false := BitVec.getLsbD_of_ge _ _ (by omega)
        simp [lower, inside, absent, show i - 16 < 32 by omega]

@[simp] theorem setWide_eq (w : Width) (v : BitVec (w.bits + w.bits)) :
    setWide c w v = pure (c.setWide w v) := by
  cases w with
  | byte => rfl
  | word =>
      rw [setWide, amount_eq (by decide), pure_bind]
      have upper : (v >>> 16).setWidth 16 = v.extractLsb' 16 16 := rfl
      rw [upper]
      rfl

@[simp] theorem alu_eq (w : Width) (op : AluOp) (target : Place) (source : Source w) :
    alu c w op target source = pure (c.alu w op target source) := by
  simp only [alu, read_eq, readSource_eq, apply_eq w.bits_eq, pure_bind, writeWithFlags_eq, Cpu.alu]
  split <;> rfl

@[simp] theorem test_eq (w : Width) (left : Place) (right : Source w) :
    test c w left right = pure (c.test w left right) := by
  simp only [test, read_eq, readSource_eq, pure_bind]
  rfl

@[simp] theorem update_eq (w : Width) (target : Place)
    (operation : w.Value → w.Value × Flags) :
    update c w target operation =
      pure (c.writeWithFlags w target (operation (c.read w target))) := by
  simp only [update, read_eq, pure_bind, writeWithFlags_eq]

@[simp] theorem mul_eq (w : Width) (source : Place) :
    mul c w source = pure (c.mul w source) := by
  simp only [mul, read_eq, pure_bind, product_eq, upperUsed_eq w.bits_eq, setWide_eq]
  rfl

@[simp] theorem imul_eq (w : Width) (source : Place) (negated : Bool) :
    imul c w source negated = pure (c.imul w source negated) := by
  simp only [imul, read_eq, pure_bind, signedProduct_eq w.bits_eq, setWide_eq]
  rfl

@[simp] theorem div_eq (w : Width) (source : Place) :
    div c w source = pure (c.divided w (unsignedDivide? (c.wide w) (c.read w source))) := by
  simp only [div, read_eq, wide_eq, pure_bind, unsignedDivide_eq]

@[simp] theorem idiv_eq (w : Width) (source : Place) (negated : Bool) :
    idiv c w source negated =
      pure (c.divided w (signedDivide? (c.wide w) (c.read w source) negated)) := by
  simp only [idiv, read_eq, wide_eq, pure_bind, signedDivide_eq w.bits_eq]

@[simp] theorem shiftPlace_eq (w : Width) (op : ShiftOp) (target : Place) (count : ShiftCount) :
    shiftPlace c w op target count = pure (c.shift w op target count) := by
  cases count <;>
    simp only [shiftPlace, Cpu.shift, read_eq, pure_bind, applyShift_eq w.bits_eq,
      writeWithFlags_eq] <;>
    split <;> rfl

@[simp] theorem aam_eq (base : Byte) : aam c base = pure (c.execute (.aam base)) := by
  rw [aam, splitDigits_eq, pure_bind, Cpu.execute]
  cases Decimal.split? c.registers.ax base c.flags <;> rfl

@[simp] theorem xchg_eq (w : Width) (left right : Place) :
    xchg c w left right = pure (c.xchg w left right) := by
  simp only [xchg, read_eq, write_eq, pure_bind]
  rfl

@[simp] theorem pushPlace_eq (source : Place) :
    pushPlace c source = pure (c.pushPlace source) := by
  simp only [pushPlace, push_eq, read_eq, pure_bind, Cpu.pushPlace]
  split <;> rfl

@[simp] theorem popPlace_eq (target : Place) : popPlace c target = pure (c.popPlace target) := by
  simp only [popPlace, pop_eq, pure_bind, writeOperand_eq]
  rfl

@[simp] theorem call_eq (ip : Word) : call c ip = pure (c.call ip) := by
  simp only [call, push_eq, pure_bind]
  rfl

@[simp] theorem callFar_eq (cs ip : Word) : callFar c cs ip = pure (c.callFar cs ip) := by
  simp only [callFar, push_eq, pure_bind]
  rfl

@[simp] theorem ret_eq (far : Bool) (release : Word) :
    ret c far release = pure (c.ret far release) := by
  cases far <;> simp only [ret, pop_eq, pure_bind] <;> rfl

@[simp] theorem iret_eq : iret c = pure c.iret := by
  simp only [iret, pop_eq, pure_bind]
  rfl

@[simp] theorem enterInterrupt_eq (cs ip : Word) :
    enterInterrupt c cs ip = pure (c.enterInterrupt cs ip) := by
  simp only [enterInterrupt, push_eq, pure_bind, callFar_eq]
  rfl

/-! ## String loops end -/

@[simp] theorem compare_eq {n : Nat} (size : n = 8 ∨ n = 16) (x y : BitVec n) :
    compare c x y = pure (c.compare x y) := by
  rw [compare, apply_eq size, pure_bind]
  rfl

@[simp] theorem stringElement_eq (w : Width) (op : StringOp) (source : Segment) :
    stringElement c w op source = pure (c.stringElement w op source) := by
  cases op <;>
    simp only [stringElement, load_eq, store_eq, writeOperand_eq, compare_eq _ w.bits_eq,
      pure_bind] <;>
    rfl

/-- An element leaves the count alone. -/
theorem cx_stringElement (w : Width) (op : StringOp) (source : Segment) :
    (c.stringElement w op source).registers.cx = c.registers.cx := by
  cases op <;> cases w <;> rfl

/-- A repetition is done after as many rounds as CX says, if no comparison ends it earlier. Every
round counts CX down, so that the rounds left are never fewer than CX. -/
theorem stringLoop_eq (w : Width) (op : StringOp) (source : Segment) (r : Repetition)
    {allowance : Nat} (enough : c.registers.cx.toNat ≤ allowance) :
    stringLoop w op source r allowance c =
      pure (Cpu.stringElements w op source r c.registers.cx.toNat c) := by
  induction allowance generalizing c with
  | zero =>
      have done : c.registers.cx = 0 := BitVec.eq_of_toNat_eq (Nat.le_zero.mp enough)
      rw [stringLoop, if_pos done, done]
      rfl
  | succ allowance ih =>
      rw [stringLoop]
      by_cases done : c.registers.cx = 0
      · rw [if_pos done, done]
        rfl
      · obtain ⟨n, count⟩ : ∃ n, c.registers.cx.toNat = n + 1 :=
          Nat.exists_eq_succ_of_ne_zero fun none => done (BitVec.eq_of_toNat_eq none)
        rw [if_neg done, stringElement_eq, pure_bind, count, Cpu.stringElements_succ]
        dsimp only
        generalize round : (c.stringElement w op source).setRegister .cx
          ((c.stringElement w op source).registers.cx - 1) = d
        have left : d.registers.cx.toNat = n := by
          rw [← round]
          show ((c.stringElement w op source).registers.cx - 1).toNat = n
          rw [cx_stringElement]
          bv_omega
        by_cases ended : (op.compares && !r.continues d.flags.zero) = true
        · rw [if_pos ended, if_pos ended]
        · rw [if_neg ended, if_neg ended, ih d (by omega), left]

@[simp] theorem string_eq (w : Width) (op : StringOp) (source : Segment)
    (repetition : Option Repetition) :
    string c w op source repetition = pure (c.string w op source repetition) := by
  cases repetition with
  | none => exact stringElement_eq c w op source
  | some r => exact stringLoop_eq c w op source r (Nat.le_refl _)

/-! ## All instructions -/

@[simp] theorem next_pure : next (pure c) = pure (c, .next) := rfl

/-- No instruction meets a condition that the host would break on. -/
theorem execute_eq (i : Instruction) : execute c i = pure (c.execute i) := by
  cases i <;>
    simp only [execute, alu_eq, test_eq, update_eq, read_eq, write_eq, readSource_eq, mul_eq,
      imul_eq, div_eq, idiv_eq, shiftPlace_eq, aam_eq, xchg_eq, readPointer_eq, readByte_eq,
      pushPlace_eq, popPlace_eq, push_eq, pop_eq, call_eq, callFar_eq, ret_eq, iret_eq, string_eq,
      pure_bind, next_pure] <;>
    rfl

end Checked

end I8086
