import I8086.Machine
import I8086.Proofs.Access
import I8086.Proofs.Checked.Number

/-!
# Access to memory in the host's numbers

The host forms linear addresses in numbers of 64 bits and keeps the lower twenty of them. Its memory
checks every request and refuses what does not lie inside. No access of a running program is ever
refused: whatever segment and offset are, and wherever a word straddles the end of its segment.
-/

namespace I8086.Checked

/-- The linear address of `segment:offset`. -/
def translate (segment offset : Word) : Checked Nat := do
  let places ← amount 64 4
  let sum ← unsigned 64 ((segment.setWidth 64 <<< places).toNat + offset.toNat : Nat)
  pure (sum &&& 0xFFFFF)

theorem translate_eq (segment offset : Word) :
    translate segment offset = pure (Address.translate segment offset).toNat := by
  have hs := segment.isLt
  have ho := offset.isLt
  have base : (segment.setWidth 64 <<< 4).toNat = 16 * segment.toNat := by
    rw [BitVec.toNat_shiftLeft, BitVec.toNat_setWidth, Nat.shiftLeft_eq]
    omega
  rw [translate, amount_eq (by decide), pure_bind, base, unsigned_natCast (by omega), pure_bind,
    Address.toNat_translate]
  exact congrArg pure (Nat.and_two_pow_sub_one_eq_mod _ 20)

/-! ## Bytes and words in segments -/

variable (c : Cpu)

/-- The byte at an offset in a segment. -/
def readByte (s : Segment) (offset : Word) : Checked Byte := do
  let a ← translate (c.registers.segment s) offset
  access (c.memory.readByte a)

/-- Writes the byte at an offset in a segment. -/
def writeByte (s : Segment) (offset : Word) (v : Byte) : Checked Cpu := do
  let a ← translate (c.registers.segment s) offset
  let memory ← access (c.memory.writeByte a v)
  pure { c with memory }

/-- The word at an offset in a segment. -/
def readWord (s : Segment) (offset : Word) : Checked Word := do
  let low ← readByte c s offset
  let high ← readByte c s (offset + 1)
  pure (Word.ofBytes low high)

/-- Writes the word at an offset in a segment. -/
def writeWord (s : Segment) (offset v : Word) : Checked Cpu := do
  let c ← writeByte c s offset v.low
  writeByte c s (offset + 1) v.high

/-- The value at an offset in a segment, in either width. -/
def load : (w : Width) → Segment → Word → Checked w.Value
  | .byte, s, offset => readByte c s offset
  | .word, s, offset => readWord c s offset

/-- Writes the value at an offset in a segment, in either width. -/
def store : (w : Width) → Segment → Word → w.Value → Checked Cpu
  | .byte, s, offset, v => writeByte c s offset v
  | .word, s, offset, v => writeWord c s offset v

@[simp] theorem readByte_eq (s : Segment) (offset : Word) :
    readByte c s offset = pure (c.readByte s offset) := by
  rw [readByte, translate_eq, pure_bind, Memory.readByte_toNat]
  rfl

@[simp] theorem writeByte_eq (s : Segment) (offset : Word) (v : Byte) :
    writeByte c s offset v = pure (c.writeByte s offset v) := by
  rw [writeByte, translate_eq, pure_bind, Memory.writeByte_toNat]
  rfl

@[simp] theorem readWord_eq (s : Segment) (offset : Word) :
    readWord c s offset = pure (c.readWord s offset) := by
  simp only [readWord, readByte_eq, pure_bind]
  rfl

@[simp] theorem writeWord_eq (s : Segment) (offset v : Word) :
    writeWord c s offset v = pure (c.writeWord s offset v) := by
  simp only [writeWord, writeByte_eq, pure_bind]
  rfl

@[simp] theorem load_eq (w : Width) (s : Segment) (offset : Word) :
    load c w s offset = pure (c.load w s offset) := by
  cases w with
  | byte => exact readByte_eq c s offset
  | word => exact readWord_eq c s offset

@[simp] theorem store_eq (w : Width) (s : Segment) (offset : Word) (v : w.Value) :
    store c w s offset v = pure (c.store w s offset v) := by
  cases w with
  | byte => exact writeByte_eq c s offset v
  | word => exact writeWord_eq c s offset v

/-! ## Operands -/

/-- The value of an operand. -/
def readOperand (w : Width) : Operand → Checked w.Value
  | .register n => pure (c.registers.read w n)
  | .memory s offset => load c w s offset

/-- Replaces the value of an operand. -/
def writeOperand (w : Width) (v : w.Value) : Operand → Checked Cpu
  | .register n => pure { c with registers := c.registers.write w n v }
  | .memory s offset => store c w s offset v

/-- The value of a place. -/
def read (w : Width) (p : Place) : Checked w.Value := readOperand c w (p.resolve c.registers)

/-- Replaces the value of a place. -/
def write (w : Width) (p : Place) (v : w.Value) : Checked Cpu :=
  writeOperand c w v (p.resolve c.registers)

/-- The value of a second operand. -/
def readSource (w : Width) : Source w → Checked w.Value
  | .place p => read c w p
  | .immediate v => pure v

/-- Replaces the value of a place and the flags together. -/
def writeWithFlags (w : Width) (p : Place) (result : w.Value × Flags) : Checked Cpu :=
  write { c with flags := result.2 } w p result.1

/-- The far pointer at an effective address, segment and offset. -/
def readPointer (e : EffectiveAddress) : Checked (Word × Word) := do
  let offset := e.offset c.registers
  let ip ← readWord c e.segment offset
  let cs ← readWord c e.segment (offset + 2)
  pure (cs, ip)

@[simp] theorem readOperand_eq (w : Width) (o : Operand) :
    readOperand c w o = pure (c.readOperand w o) := by
  cases o with
  | register n => rfl
  | memory s offset => exact load_eq c w s offset

@[simp] theorem writeOperand_eq (w : Width) (v : w.Value) (o : Operand) :
    writeOperand c w v o = pure (c.writeOperand w v o) := by
  cases o with
  | register n => rfl
  | memory s offset => exact store_eq c w s offset v

@[simp] theorem read_eq (w : Width) (p : Place) : read c w p = pure (c.read w p) :=
  readOperand_eq c w _

@[simp] theorem write_eq (w : Width) (p : Place) (v : w.Value) :
    write c w p v = pure (c.write w p v) :=
  writeOperand_eq c w v _

@[simp] theorem readSource_eq (w : Width) (s : Source w) :
    readSource c w s = pure (c.readSource w s) := by
  cases s with
  | place p => exact read_eq c w p
  | immediate v => rfl

@[simp] theorem writeWithFlags_eq (w : Width) (p : Place) (result : w.Value × Flags) :
    writeWithFlags c w p result = pure (c.writeWithFlags w p result) :=
  write_eq _ w p _

@[simp] theorem readPointer_eq (e : EffectiveAddress) :
    readPointer c e = pure (c.readPointer e) := by
  simp only [readPointer, readWord_eq, pure_bind]
  rfl

/-! ## The stack -/

/-- Moves SP down by two and writes a word there. -/
def push (v : Word) : Checked Cpu :=
  writeWord (c.setRegister .sp (c.registers.sp - 2)) .ss (c.registers.sp - 2) v

/-- Takes the word that SP points at and moves SP up by two. -/
def pop : Checked (Word × Cpu) := do
  let v ← readWord c .ss c.registers.sp
  pure (v, c.setRegister .sp (c.registers.sp + 2))

@[simp] theorem push_eq (v : Word) : push c v = pure (c.push v) := writeWord_eq _ _ _ v

@[simp] theorem pop_eq : pop c = pure c.pop := by
  rw [pop, readWord_eq, pure_bind]
  rfl

/-! ## The vector table -/

/-- Segment and offset of an interrupt's routine. -/
def readVector (vector : Byte) : Checked (Word × Word) := do
  let a ← unsigned 64 (vector.toNat * 4 : Nat)
  let ip ← access (c.memory.readWord a)
  let a ← unsigned 64 (a + 2 : Nat)
  let cs ← access (c.memory.readWord a)
  pure (cs, ip)

/-- The vector table lies at the bottom of memory. -/
@[simp] theorem readVector_eq (vector : Byte) :
    readVector c vector = pure (c.readVector vector) := by
  have hv := vector.isLt
  obtain ⟨offset, segment⟩ := c.readWord_vectorTable vector
  rw [readVector, unsigned_natCast (by omega), pure_bind, offset, access_ok, pure_bind,
    unsigned_natCast (by omega), pure_bind, segment, access_ok, pure_bind]

end I8086.Checked
