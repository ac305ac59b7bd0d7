import I8086.Decimal
import I8086.Execution.String
import I8086.Product

/-!
# Execution

`Cpu.execute` carries out one instruction on the processor state, with IP already past it, and
tells what the machine has to do next: go on, stop, or deliver an interrupt. It never fails.
Delivering the interrupt is not part of it, because a host service may answer instead of the
guest's vector table.
-/

namespace I8086

/-- What follows an instruction. -/
inductive Signal where
  | next
  | halt
  | interrupt (vector : Byte)
deriving DecidableEq

/-- The interrupt of a division that has no result. -/
def divideVector : Byte := 0

/-- The interrupt of `INTO`. -/
def overflowVector : Byte := 4

namespace Cpu

/-! ## Operands -/

/-- The value of a second operand. -/
def readSource (c : Cpu) (w : Width) : Source w → w.Value
  | .place p => c.read w p
  | .immediate v => v

/-- Replaces the value of a place and the flags together. -/
def writeWithFlags (c : Cpu) (w : Width) (p : Place) (result : w.Value × Flags) : Cpu :=
  { c with flags := result.2 }.write w p result.1

/-- The accumulator. -/
def accumulator (c : Cpu) (w : Width) : w.Value := c.registers.read w .accumulator

/-- The double accumulator: AX for bytes, DX above AX for words. -/
def wide (c : Cpu) : (w : Width) → BitVec (w.bits + w.bits)
  | .byte => c.registers.ax
  | .word => c.registers.dx ++ c.registers.ax

/-- Replaces the double accumulator. -/
def setWide (c : Cpu) : (w : Width) → BitVec (w.bits + w.bits) → Cpu
  | .byte, v => { c with registers := { c.registers with ax := v } }
  | .word, v =>
    { c with registers := { c.registers with dx := v.extractLsb' 16 16, ax := v.setWidth 16 } }

/-- Replaces AX and the flags together. -/
def setAxWithFlags (c : Cpu) (result : Word × Flags) : Cpu :=
  { c with flags := result.2, registers := { c.registers with ax := result.1 } }

/-- Replaces AL and the flags together. -/
def setAlWithFlags (c : Cpu) (result : Byte × Flags) : Cpu :=
  { c with flags := result.2, registers := c.registers.setLow .ax result.1 }

/-- The far pointer at an effective address, segment and offset; the offset is stored first. -/
def readPointer (c : Cpu) (a : EffectiveAddress) : Word × Word :=
  let offset := a.offset c.registers
  (c.readWord a.segment (offset + 2), c.readWord a.segment offset)

/-! ## Families of instructions -/

/-- A two-operand operation; a comparison writes only flags. -/
def alu (c : Cpu) (w : Width) (op : AluOp) (target : Place) (source : Source w) : Cpu :=
  let result := op.apply c.flags (c.read w target) (c.readSource w source)
  if op.isComparison then { c with flags := result.2 } else c.writeWithFlags w target result

/-- Sets the flags for the bitwise conjunction of two operands. -/
def test (c : Cpu) (w : Width) (left : Place) (right : Source w) : Cpu :=
  let v := c.read w left &&& c.readSource w right
  { c with flags := c.flags.withLogical v }

/-- Unsigned multiplication into the double accumulator. -/
def mul (c : Cpu) (w : Width) (source : Place) : Cpu :=
  let p := unsignedProduct (c.accumulator w) (c.read w source)
  { c with flags := c.flags.withWide (unsignedWide p) }.setWide w p

/-- Signed multiplication into the double accumulator. -/
def imul (c : Cpu) (w : Width) (source : Place) (negated : Bool) : Cpu :=
  let p := signedProduct (c.accumulator w) (c.read w source) negated
  { c with flags := c.flags.withWide (signedWide p) }.setWide w p

/-- Replaces the double accumulator by quotient and remainder, if there are any. -/
def divided (c : Cpu) (w : Width) (result : Option (BitVec (w.bits + w.bits))) : Cpu × Signal :=
  match result with
  | some v => (c.setWide w v, .next)
  | none => (c, .interrupt divideVector)

/-- A shift by one or by CL. -/
def shift (c : Cpu) (w : Width) (op : ShiftOp) (target : Place) (count : ShiftCount) : Cpu :=
  let n := match count with
    | .one => 1
    | .cl => (c.registers.low .cx).toNat
  if n = 0 then c else c.writeWithFlags w target (op.apply c.flags (c.read w target) n)

/-- Exchanges two operands. -/
def xchg (c : Cpu) (w : Width) (left right : Place) : Cpu :=
  let x := c.read w left
  let y := c.read w right
  (c.write w left y).write w right x

/-- Pushes a word operand. For SP itself the pushed value is the one after the push. -/
def pushPlace (c : Cpu) (source : Place) : Cpu :=
  if source = .register .stackPointer then
    let sp := c.registers.sp - 2
    c.push sp
  else
    let v := c.read .word source
    c.push v

/-- Pops a word into a place, which is located before the pop. -/
def popPlace (c : Cpu) (target : Place) : Cpu :=
  let operand := target.resolve c.registers
  let (v, c) := c.pop
  c.writeOperand .word v operand

/-- Jumps by a distance if a condition is met. -/
def jumpWhen (c : Cpu) (taken : Bool) (distance : Word) : Cpu :=
  if taken then c.advance distance else c

/-- Counts CX down and jumps while it is not zero and ZF agrees. -/
def loop (c : Cpu) (kind : LoopKind) (distance : Word) : Cpu :=
  let cx := c.registers.cx - 1
  let agrees := match kind with
    | .always => true
    | .whileZero => c.flags.zero
    | .whileNotZero => !c.flags.zero
  (c.setRegister .cx cx).jumpWhen (cx != 0 && agrees) distance

/-- Pushes IP and continues at another offset. -/
def call (c : Cpu) (ip : Word) : Cpu :=
  let back := c.registers.ip
  (c.push back).jump ip

/-- Pushes CS and IP and continues in another code segment. -/
def callFar (c : Cpu) (cs ip : Word) : Cpu :=
  let backSegment := c.registers.cs
  let back := c.registers.ip
  ((c.push backSegment).push back).jumpFar cs ip

/-- Pops IP, for a far return also CS, and releases so many more bytes of the stack. -/
def ret (c : Cpu) (far : Bool) (release : Word) : Cpu :=
  let (ip, c) := c.pop
  if far then
    let (cs, c) := c.pop
    let sp := c.registers.sp + release
    (c.jumpFar cs ip).setRegister .sp sp
  else
    let sp := c.registers.sp + release
    (c.jump ip).setRegister .sp sp

/-- Pops IP, CS and the flags. -/
def iret (c : Cpu) : Cpu :=
  let (ip, c) := c.pop
  let (cs, c) := c.pop
  let (flags, c) := c.pop
  { c with flags := .unpack flags }.jumpFar cs ip

/-- Enters an interrupt routine: flags, CS and IP go onto the stack, IF and TF are cleared. -/
def enterInterrupt (c : Cpu) (cs ip : Word) : Cpu :=
  let word := c.flags.pushed
  let c := c.push word
  { c with flags := { c.flags with interrupt := false, trap := false } }.callFar cs ip

/-! ## All instructions -/

/-- Carries out an instruction that stands just before IP. -/
def execute (c : Cpu) (i : Instruction) : Cpu × Signal :=
  match i with
  | .alu w op target source => (c.alu w op target source, .next)
  | .test w left right => (c.test w left right, .next)
  | .inc w target => (c.writeWithFlags w target (increment c.flags (c.read w target)), .next)
  | .dec w target => (c.writeWithFlags w target (decrement c.flags (c.read w target)), .next)
  | .not w target =>
    let v := ~~~c.read w target
    (c.write w target v, .next)
  | .neg w target => (c.writeWithFlags w target (negate c.flags (c.read w target)), .next)
  | .mul w source => (c.mul w source, .next)
  | .imul w source negated => (c.imul w source negated, .next)
  | .div w source =>
    let result := unsignedDivide? (c.wide w) (c.read w source)
    c.divided w result
  | .idiv w source negated =>
    let result := signedDivide? (c.wide w) (c.read w source) negated
    c.divided w result
  | .shift w op target count => (c.shift w op target count, .next)
  | .daa => (c.setAlWithFlags (Decimal.packedAdd (c.registers.low .ax) c.flags), .next)
  | .das => (c.setAlWithFlags (Decimal.packedSub (c.registers.low .ax) c.flags), .next)
  | .aaa => (c.setAxWithFlags (Decimal.unpackedAdd c.registers.ax c.flags), .next)
  | .aas => (c.setAxWithFlags (Decimal.unpackedSub c.registers.ax c.flags), .next)
  | .aam base =>
    match Decimal.split? c.registers.ax base c.flags with
    | some result => (c.setAxWithFlags result, .next)
    | none => ({ c with flags := c.flags.withResult (0 : Byte) }, .interrupt divideVector)
  | .aad base => (c.setAxWithFlags (Decimal.join c.registers.ax base c.flags), .next)
  | .cbw =>
    let v := (c.registers.low .ax).signExtend
    (c.setRegister .ax v, .next)
  | .cwd =>
    let v := if c.registers.ax.msb then 0xFFFF else 0
    (c.setRegister .dx v, .next)
  | .mov w target source =>
    let v := c.readSource w source
    (c.write w target v, .next)
  | .movFromSegment target s =>
    let v := c.registers.segment s
    (c.write .word target v, .next)
  | .movToSegment s source =>
    let v := c.read .word source
    (c.setRegister s.register v, .next)
  | .xchg w left right => (c.xchg w left right, .next)
  | .lea n a =>
    let offset := a.offset c.registers
    (c.setRegister n.register offset, .next)
  | .loadPointer s n a =>
    let (segment, offset) := c.readPointer a
    ((c.setRegister n.register offset).setRegister s.register segment, .next)
  | .lahf =>
    let v := c.flags.pushed.low
    (c.setHigh .ax v, .next)
  | .sahf => ({ c with flags := c.flags.unpackLow (c.registers.high .ax) }, .next)
  | .xlat s =>
    let v := c.readByte s (c.registers.bx + (c.registers.low .ax).setWidth 16)
    (c.setLow .ax v, .next)
  | .input w port =>
    let v := Port.read w (port.number c.registers)
    (c.writeOperand w v (.register .accumulator), .next)
  | .output _ _ => (c, .next)
  | .push source => (c.pushPlace source, .next)
  | .pop target => (c.popPlace target, .next)
  | .pushSegment s =>
    let v := c.registers.segment s
    (c.push v, .next)
  | .popSegment s =>
    let (v, c) := c.pop
    (c.setRegister s.register v, .next)
  | .pushf =>
    let v := c.flags.pushed
    (c.push v, .next)
  | .popf =>
    let (v, c) := c.pop
    ({ c with flags := .unpack v }, .next)
  | .jumpIf condition negated distance =>
    let taken := condition.holds c.flags != negated
    (c.jumpWhen taken distance, .next)
  | .loop kind distance => (c.loop kind distance, .next)
  | .jcxz distance =>
    let taken := c.registers.cx == 0
    (c.jumpWhen taken distance, .next)
  | .jump distance => (c.advance distance, .next)
  | .jumpFar cs ip => (c.jumpFar cs ip, .next)
  | .jumpTo target =>
    let ip := c.read .word target
    (c.jump ip, .next)
  | .jumpToPointer a =>
    let (cs, ip) := c.readPointer a
    (c.jumpFar cs ip, .next)
  | .call distance =>
    let ip := c.registers.ip + distance
    (c.call ip, .next)
  | .callFar cs ip => (c.callFar cs ip, .next)
  | .callTo target =>
    let ip := c.read .word target
    (c.call ip, .next)
  | .callToPointer a =>
    let (cs, ip) := c.readPointer a
    (c.callFar cs ip, .next)
  | .ret far release => (c.ret far release, .next)
  | .interrupt vector => (c, .interrupt vector)
  | .into => (c, if c.flags.overflow then .interrupt overflowVector else .next)
  | .iret => (c.iret, .next)
  | .string w op source repetition => (c.string w op source repetition, .next)
  | .setFlag flag v => (c.setFlag flag v, .next)
  | .cmc => ({ c with flags := c.flags.flip .carry }, .next)
  | .wait => (c, .next)
  | .esc => (c, .next)
  | .hlt => ({ c with halted := true }, .halt)

end Cpu

end I8086
