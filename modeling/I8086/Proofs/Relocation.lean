import I8086.Machine

/-!
# Moving the program to another place

`Cpu.relocate` gives IP and the remembered start of the instruction other values. Nothing that an
instruction reads or writes depends on them, apart from control transfers, so relocating commutes
with the accesses of this file one by one, and with whole instructions as they are made of these.
-/

namespace I8086

theorem RegisterNumber.register_ne_ip (n : RegisterNumber) : n.register ≠ .ip := by
  revert n
  decide

theorem RegisterNumber.whole_ne_ip (n : RegisterNumber) : n.whole ≠ .ip :=
  RegisterNumber.register_ne_ip _

theorem Segment.register_ne_ip (s : Segment) : s.register ≠ .ip := by
  cases s <;> decide

namespace Registers

variable (r : Registers) (a b : Word)

/-- The registers with other values of IP and of the start of the instruction. -/
def relocate (r : Registers) (ip opIp : Word) : Registers := { r with ip, opIp }

@[simp] theorem ip_relocate : (r.relocate a b).ip = a := rfl

@[simp] theorem opIp_relocate : (r.relocate a b).opIp = b := rfl

@[simp] theorem ax_relocate : (r.relocate a b).ax = r.ax := rfl

@[simp] theorem bx_relocate : (r.relocate a b).bx = r.bx := rfl

@[simp] theorem cx_relocate : (r.relocate a b).cx = r.cx := rfl

@[simp] theorem dx_relocate : (r.relocate a b).dx = r.dx := rfl

@[simp] theorem sp_relocate : (r.relocate a b).sp = r.sp := rfl

@[simp] theorem si_relocate : (r.relocate a b).si = r.si := rfl

@[simp] theorem di_relocate : (r.relocate a b).di = r.di := rfl

@[simp] theorem cs_relocate : (r.relocate a b).cs = r.cs := rfl

theorem get_relocate {name : Register} (h : name ≠ .ip) :
    (r.relocate a b).get name = r.get name := by
  cases name <;> first | rfl | contradiction

theorem low_relocate {name : Register} (h : name ≠ .ip) :
    (r.relocate a b).low name = r.low name := by
  rw [low, low, get_relocate r a b h]

theorem high_relocate {name : Register} (h : name ≠ .ip) :
    (r.relocate a b).high name = r.high name := by
  rw [high, high, get_relocate r a b h]

theorem set_relocate {name : Register} (h : name ≠ .ip) (v : Word) :
    (r.relocate a b).set name v = (r.set name v).relocate a b := by
  cases name <;> first | rfl | contradiction

@[simp] theorem segment_relocate (s : Segment) : (r.relocate a b).segment s = r.segment s :=
  get_relocate r a b s.register_ne_ip

@[simp] theorem read_relocate (w : Width) (n : RegisterNumber) :
    (r.relocate a b).read w n = r.read w n := by
  cases w with
  | byte =>
      simp only [read, byte, low_relocate r a b n.whole_ne_ip, high_relocate r a b n.whole_ne_ip]
  | word => exact get_relocate r a b n.register_ne_ip

@[simp] theorem write_relocate (w : Width) (n : RegisterNumber) (v : w.Value) :
    (r.relocate a b).write w n v = (r.write w n v).relocate a b := by
  cases w with
  | byte =>
      simp only [write, setByte, setLow, setHigh, low_relocate r a b n.whole_ne_ip,
        high_relocate r a b n.whole_ne_ip, set_relocate r a b n.whole_ne_ip]
      split <;> rfl
  | word => exact set_relocate r a b n.register_ne_ip v

end Registers

/-! ## Operands -/

theorem EffectiveAddress.offset_relocate (e : EffectiveAddress) (r : Registers) (a b : Word) :
    e.offset (r.relocate a b) = e.offset r := by
  obtain ⟨s, base, d⟩ := e
  cases base <;> rfl

@[simp] theorem Place.resolve_relocate (p : Place) (r : Registers) (a b : Word) :
    p.resolve (r.relocate a b) = p.resolve r := by
  cases p with
  | register n => rfl
  | memory e => simp only [resolve, e.offset_relocate]

namespace Cpu

/-- The processor with other values of IP and of the start of the instruction. -/
def relocate (c : Cpu) (ip opIp : Word) : Cpu :=
  { c with registers := c.registers.relocate ip opIp }

theorem relocate_self (c : Cpu) : c.relocate c.registers.ip c.registers.opIp = c := rfl

variable (c : Cpu) (a b : Word)

@[simp] theorem relocate_relocate (a' b' : Word) :
    (c.relocate a b).relocate a' b' = c.relocate a' b' := rfl

theorem jump_eq (ip : Word) : c.jump ip = c.relocate ip c.registers.opIp := rfl

@[simp] theorem registers_relocate : (c.relocate a b).registers = c.registers.relocate a b := rfl

@[simp] theorem flags_relocate : (c.relocate a b).flags = c.flags := rfl

@[simp] theorem memory_relocate : (c.relocate a b).memory = c.memory := rfl

@[simp] theorem halted_relocate : (c.relocate a b).halted = c.halted := rfl

theorem withFlags_relocate (f : Flags) :
    { c.relocate a b with flags := f } = { c with flags := f }.relocate a b := rfl

@[simp] theorem address_relocate (s : Segment) (offset : Word) :
    (c.relocate a b).address s offset = c.address s offset := by
  simp only [address, registers_relocate, Registers.segment_relocate]

@[simp] theorem readByte_relocate (s : Segment) (offset : Word) :
    (c.relocate a b).readByte s offset = c.readByte s offset := by
  simp only [readByte, address_relocate, memory_relocate]

@[simp] theorem readWord_relocate (s : Segment) (offset : Word) :
    (c.relocate a b).readWord s offset = c.readWord s offset := by
  simp only [readWord, readByte_relocate]

@[simp] theorem load_relocate (w : Width) (s : Segment) (offset : Word) :
    (c.relocate a b).load w s offset = c.load w s offset := by
  cases w with
  | byte => exact readByte_relocate c a b s offset
  | word => exact readWord_relocate c a b s offset

@[simp] theorem writeByte_relocate (s : Segment) (offset : Word) (v : Byte) :
    (c.relocate a b).writeByte s offset v = (c.writeByte s offset v).relocate a b := by
  simp only [writeByte, address_relocate]
  rfl

@[simp] theorem writeWord_relocate (s : Segment) (offset v : Word) :
    (c.relocate a b).writeWord s offset v = (c.writeWord s offset v).relocate a b := by
  simp only [writeWord, writeByte_relocate]

@[simp] theorem store_relocate (w : Width) (s : Segment) (offset : Word) (v : w.Value) :
    (c.relocate a b).store w s offset v = (c.store w s offset v).relocate a b := by
  cases w with
  | byte => exact writeByte_relocate c a b s offset v
  | word => exact writeWord_relocate c a b s offset v

theorem setRegister_relocate {name : Register} (h : name ≠ .ip) (v : Word) :
    (c.relocate a b).setRegister name v = (c.setRegister name v).relocate a b := by
  simp only [setRegister, registers_relocate, Registers.set_relocate _ a b h]
  rfl

@[simp] theorem push_relocate (v : Word) :
    (c.relocate a b).push v = (c.push v).relocate a b := by
  simp only [push, registers_relocate, Registers.sp_relocate,
    setRegister_relocate c a b (show Register.sp ≠ .ip by decide), writeWord_relocate]

@[simp] theorem fst_pop_relocate : (c.relocate a b).pop.1 = c.pop.1 :=
  readWord_relocate c a b .ss c.registers.sp

@[simp] theorem snd_pop_relocate : (c.relocate a b).pop.2 = c.pop.2.relocate a b := rfl

@[simp] theorem readVector_relocate (vector : Byte) :
    (c.relocate a b).readVector vector = c.readVector vector := rfl

@[simp] theorem readOperand_relocate (w : Width) (o : Operand) :
    (c.relocate a b).readOperand w o = c.readOperand w o := by
  cases o with
  | register n => exact Registers.read_relocate _ a b w n
  | memory s offset => exact load_relocate c a b w s offset

@[simp] theorem writeOperand_relocate (w : Width) (v : w.Value) (o : Operand) :
    (c.relocate a b).writeOperand w v o = (c.writeOperand w v o).relocate a b := by
  cases o with
  | register n =>
      simp only [writeOperand, registers_relocate, Registers.write_relocate]
      rfl
  | memory s offset => exact store_relocate c a b w s offset v

@[simp] theorem read_relocate (w : Width) (p : Place) :
    (c.relocate a b).read w p = c.read w p := by
  simp only [read, registers_relocate, Place.resolve_relocate, readOperand_relocate]

@[simp] theorem write_relocate (w : Width) (p : Place) (v : w.Value) :
    (c.relocate a b).write w p v = (c.write w p v).relocate a b := by
  simp only [write, registers_relocate, Place.resolve_relocate, writeOperand_relocate]

@[simp] theorem readSource_relocate (w : Width) (s : Source w) :
    (c.relocate a b).readSource w s = c.readSource w s := by
  cases s with
  | place p => exact read_relocate c a b w p
  | immediate v => rfl

@[simp] theorem writeWithFlags_relocate (w : Width) (p : Place) (result : w.Value × Flags) :
    (c.relocate a b).writeWithFlags w p result = (c.writeWithFlags w p result).relocate a b := by
  simp only [writeWithFlags, withFlags_relocate, write_relocate]

@[simp] theorem accumulator_relocate (w : Width) :
    (c.relocate a b).accumulator w = c.accumulator w :=
  Registers.read_relocate _ a b w _

@[simp] theorem wide_relocate (w : Width) : (c.relocate a b).wide w = c.wide w := by
  cases w <;> rfl

@[simp] theorem setWide_relocate (w : Width) (v : BitVec (w.bits + w.bits)) :
    (c.relocate a b).setWide w v = (c.setWide w v).relocate a b := by
  cases w <;> rfl

@[simp] theorem readPointer_relocate (e : EffectiveAddress) :
    (c.relocate a b).readPointer e = c.readPointer e := by
  simp only [readPointer, registers_relocate, e.offset_relocate, readWord_relocate]

end Cpu

end I8086
