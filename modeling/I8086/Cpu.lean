import I8086.Flags
import I8086.Memory
import I8086.Registers

/-!
# The processor state

Registers, flags, memory and whether the processor has stopped. All accesses of a running program
go through a segment register and a 16-bit offset; such an access never fails, since the linear
address wraps at the top of memory. The two bytes of a word lie at `offset` and `offset + 1`
inside the segment, so the high byte of the word at FFFF is the byte at 0.

The first kibibyte holds the vector table: for each of the 256 interrupts the offset and then the
segment of its routine.
-/

namespace I8086

/-- Everything that an instruction may read or change; a fresh one is as after power-on. -/
structure Cpu where
  registers : Registers := .reset
  flags : Flags := .clear
  memory : Memory := .zero
  halted : Bool := false

namespace Cpu

/-- Registers and flags at their power-on values; memory is kept. -/
def reset (c : Cpu) : Cpu :=
  { c with registers := .reset, flags := .clear, halted := false }

/-- Replaces one word register. -/
def setRegister (c : Cpu) (name : Register) (v : Word) : Cpu :=
  { c with registers := c.registers.set name v }

/-- Replaces the low half of a word register. -/
def setLow (c : Cpu) (name : Register) (v : Byte) : Cpu :=
  { c with registers := c.registers.setLow name v }

/-- Replaces the high half of a word register. -/
def setHigh (c : Cpu) (name : Register) (v : Byte) : Cpu :=
  { c with registers := c.registers.setHigh name v }

/-- Replaces one flag. -/
def setFlag (c : Cpu) (flag : Flag) (v : Bool) : Cpu :=
  { c with flags := c.flags.set flag v }

/-! ## Segmented access -/

/-- The linear address of an offset in a segment. -/
def address (c : Cpu) (s : Segment) (offset : Word) : Address :=
  Address.translate (c.registers.segment s) offset

/-- The byte at an offset in a segment. -/
def readByte (c : Cpu) (s : Segment) (offset : Word) : Byte :=
  c.memory.get (c.address s offset)

/-- Writes the byte at an offset in a segment. -/
def writeByte (c : Cpu) (s : Segment) (offset : Word) (v : Byte) : Cpu :=
  let a := c.address s offset
  { c with memory := c.memory.set a v }

/-- The word at an offset in a segment. -/
def readWord (c : Cpu) (s : Segment) (offset : Word) : Word :=
  Word.ofBytes (c.readByte s offset) (c.readByte s (offset + 1))

/-- Writes the word at an offset in a segment, low byte first. -/
def writeWord (c : Cpu) (s : Segment) (offset : Word) (v : Word) : Cpu :=
  (c.writeByte s offset v.low).writeByte s (offset + 1) v.high

/-- The value at an offset in a segment, in either width. -/
def load (c : Cpu) : (w : Width) → Segment → Word → w.Value
  | .byte, s, offset => c.readByte s offset
  | .word, s, offset => c.readWord s offset

/-- Writes the value at an offset in a segment, in either width. -/
def store (c : Cpu) : (w : Width) → Segment → Word → w.Value → Cpu
  | .byte, s, offset, v => c.writeByte s offset v
  | .word, s, offset, v => c.writeWord s offset v

@[simp] theorem registers_writeByte (c : Cpu) (s : Segment) (offset : Word) (v : Byte) :
    (c.writeByte s offset v).registers = c.registers := rfl

@[simp] theorem registers_writeWord (c : Cpu) (s : Segment) (offset v : Word) :
    (c.writeWord s offset v).registers = c.registers := rfl

@[simp] theorem flags_writeByte (c : Cpu) (s : Segment) (offset : Word) (v : Byte) :
    (c.writeByte s offset v).flags = c.flags := rfl

@[simp] theorem flags_writeWord (c : Cpu) (s : Segment) (offset v : Word) :
    (c.writeWord s offset v).flags = c.flags := rfl

/-! ## The instruction stream -/

/-- The byte at `CS:IP + ahead`. -/
def peekByte (c : Cpu) (ahead : Word) : Byte := c.readByte .cs (c.registers.ip + ahead)

/-- Moves IP by a distance, which wraps. -/
def advance (c : Cpu) (distance : Word) : Cpu :=
  { c with registers := { c.registers with ip := c.registers.ip + distance } }

/-- Takes one byte at `CS:IP`. -/
def fetchByte (c : Cpu) : Byte × Cpu := (c.readByte .cs c.registers.ip, c.advance 1)

/-- Takes one word at `CS:IP`. -/
def fetchWord (c : Cpu) : Word × Cpu := (c.readWord .cs c.registers.ip, c.advance 2)

/-- Continues at another offset of the code segment. -/
def jump (c : Cpu) (ip : Word) : Cpu := c.setRegister .ip ip

/-- Continues in another code segment. -/
def jumpFar (c : Cpu) (cs ip : Word) : Cpu :=
  { c with registers := { c.registers with cs := cs, ip := ip } }

/-! ## The stack -/

/-- Moves SP down by two and writes a word there. -/
def push (c : Cpu) (v : Word) : Cpu :=
  let sp := c.registers.sp - 2
  (c.setRegister .sp sp).writeWord .ss sp v

/-- Takes the word that SP points at and moves SP up by two. -/
def pop (c : Cpu) : Word × Cpu :=
  let sp := c.registers.sp
  (c.readWord .ss sp, c.setRegister .sp (sp + 2))

/-! ## The vector table -/

/-- The linear address of the vector table's entry. -/
def vectorAddress (vector : Byte) : Address := vector.setWidth 20 <<< 2

/-- Segment and offset of an interrupt's routine. -/
def readVector (c : Cpu) (vector : Byte) : Word × Word :=
  let a := vectorAddress vector
  let word (a : Address) := Word.ofBytes (c.memory.get a) (c.memory.get (a + 1))
  (word (a + 2), word a)

/-- Replaces segment and offset of an interrupt's routine. -/
def writeVector (c : Cpu) (vector : Byte) (segment offset : Word) : Cpu :=
  { c with
    memory := c.memory.store (vectorAddress vector)
      [offset.low, offset.high, segment.low, segment.high] }

end Cpu

end I8086
