import I8086.Proofs.Relocation
import I8086.Proofs.Stack

/-!
# The bytes that an instruction touches

`Instruction.Reads` and `Instruction.Writes` say which bytes of memory an instruction may look at
and which it may change, from the state in which it is executed. Both are unions of a few kinds of
areas: an operand in memory, a far pointer, the top of the stack, and the elements of a string. The
bytes of the instruction itself and the vector table are not among them, since neither is the
business of execution.
-/

namespace I8086

namespace Cpu

variable (c : Cpu)

/-- The address belongs to the `n` bytes from an offset of a segment on. Offsets wrap. -/
def Within (s : Segment) (offset : Word) (n : Nat) (a : Address) : Prop :=
  ∃ k < n, a = c.address s (offset + BitVec.ofNat 16 k)

/-- The address belongs to an operand, which a register does not. -/
def InOperand (w : Width) : Operand → Address → Prop
  | .register _, _ => False
  | .memory s offset, a => c.Within s offset w.bytes a

/-- The address belongs to a place. -/
def InPlace (w : Width) (p : Place) : Address → Prop := c.InOperand w (p.resolve c.registers)

/-- The address belongs to a second operand. -/
def InSource (w : Width) : Source w → Address → Prop
  | .place p => c.InPlace w p
  | .immediate _ => fun _ => False

/-- The address belongs to the far pointer at an effective address. -/
def InPointer (e : EffectiveAddress) : Address → Prop :=
  c.Within e.segment (e.offset c.registers) 4

/-- The address belongs to one of the next `n` words on the stack. -/
def OnStack (n : Nat) : Address → Prop := c.Within .ss c.registers.sp (2 * n)

/-- The address belongs to one of `n` elements of a string, which begins at an offset and goes the
way that DF says. -/
def InElements (w : Width) (s : Segment) (start : Word) (n : Nat) (a : Address) : Prop :=
  ∃ k < n, c.Within s (start + BitVec.ofNat 16 k * c.stride w) w.bytes a

/-- The number of elements that a string instruction has before it. -/
def elements : Option Repetition → Nat
  | none => 1
  | some _ => c.registers.cx.toNat

end Cpu

/-- The number of positions that a shift goes. -/
def ShiftCount.positions (c : Cpu) : ShiftCount → Nat
  | one => 1
  | cl => (c.registers.low .cx).toNat

namespace StringOp

/-- The operations that take an element from the source. -/
def loads : StringOp → Bool
  | movs | cmps | lods => true
  | stos | scas => false

/-- The operations that replace an element of the destination. -/
def stores : StringOp → Bool
  | movs | stos => true
  | cmps | lods | scas => false

end StringOp

namespace Instruction

/-- The bytes that an instruction may look at when it is executed in this state. -/
def Reads (c : Cpu) : Instruction → Address → Prop
  | .alu w _ target source => fun a => c.InPlace w target a ∨ c.InSource w source a
  | .test w left right => fun a => c.InPlace w left a ∨ c.InSource w right a
  | .inc w p | .dec w p | .not w p | .neg w p | .mul w p | .imul w p _ | .div w p | .idiv w p _ =>
      c.InPlace w p
  | .shift w _ target count => fun a => count.positions c ≠ 0 ∧ c.InPlace w target a
  | .mov w _ source => c.InSource w source
  | .movToSegment _ p | .push p | .jumpTo p | .callTo p => c.InPlace .word p
  | .xchg w left right => fun a => c.InPlace w left a ∨ c.InPlace w right a
  | .loadPointer _ _ e | .jumpToPointer e | .callToPointer e => c.InPointer e
  | .xlat s => c.Within s (c.registers.bx + (c.registers.low .ax).setWidth 16) 1
  | .pop _ | .popSegment _ | .popf => c.OnStack 1
  | .ret far _ => c.OnStack (if far then 2 else 1)
  | .iret => c.OnStack 3
  | .string w op source repetition => fun a =>
      op.loads = true ∧ c.InElements w source c.registers.si (c.elements repetition) a ∨
        op.compares = true ∧ c.InElements w .es c.registers.di (c.elements repetition) a
  | _ => fun _ => False

/-- The bytes that an instruction may change when it is executed in this state. The second operand
of an exchange is a register in every encoding. -/
def Writes (c : Cpu) : Instruction → Address → Prop
  | .alu w op target _ => fun a => op.isComparison = false ∧ c.InPlace w target a
  | .inc w target | .dec w target | .not w target | .neg w target | .mov w target _
  | .xchg w target _ => c.InPlace w target
  | .shift w _ target count => fun a => count.positions c ≠ 0 ∧ c.InPlace w target a
  | .movFromSegment target _ | .pop target => c.InPlace .word target
  | .push _ | .pushSegment _ | .pushf | .call _ | .callTo _ => c.UnderTop 2
  | .callFar _ _ | .callToPointer _ => c.UnderTop 4
  | .string w op _ repetition => fun a =>
      op.stores = true ∧ c.InElements w .es c.registers.di (c.elements repetition) a
  | _ => fun _ => False

end Instruction

/-- A shift by no position does nothing at all. -/
theorem Cpu.shift_eq (c : Cpu) (w : Width) (op : ShiftOp) (target : Place) (count : ShiftCount) :
    c.shift w op target count =
      if count.positions c = 0 then c
      else c.writeWithFlags w target (op.apply c.flags (c.read w target) (count.positions c)) := by
  cases count <;> rfl

/-! ## The elements of a string -/

namespace Cpu

variable (c : Cpu) {w : Width} {s : Segment} {start : Word} {n : Nat} {a : Address}

/-- The first element lies where the string begins. -/
theorem inElements_first (inside : c.Within s start w.bytes a) (pos : 0 < n) :
    c.InElements w s start n a := by
  have offset : start + BitVec.ofNat 16 0 * c.stride w = start := by
    rw [show BitVec.ofNat 16 0 * c.stride w = 0#16 from BitVec.zero_mul, BitVec.add_zero]
  refine ⟨0, pos, ?_⟩
  rwa [offset]

/-- The elements behind the first are those that are left when the first has been dealt with, with
the same segments and the same direction. -/
theorem inElements_succ {c' : Cpu} (address : ∀ offset, c'.address s offset = c.address s offset)
    (stride : c'.stride w = c.stride w)
    (inside : c'.InElements w s (start + c.stride w) n a) : c.InElements w s start (n + 1) a := by
  obtain ⟨k, before, j, within, rfl⟩ := inside
  have offset : start + c.stride w + BitVec.ofNat 16 k * c.stride w =
      start + BitVec.ofNat 16 (k + 1) * c.stride w := by
    rw [BitVec.ofNat_add, BitVec.add_mul, BitVec.add_assoc, BitVec.add_comm (c.stride w)]
    congr 2
    exact (BitVec.one_mul _).symm
  refine ⟨k + 1, Nat.succ_lt_succ before, j, within, ?_⟩
  rw [address, stride, offset]

variable {op : StringOp} {source : Segment} {cx : Word}

/-- One element and the count leave the segments alone. -/
theorem address_stringElement (s : Segment) (offset : Word) :
    ((c.stringElement w op source).setRegister .cx cx).address s offset = c.address s offset := by
  cases op <;> cases w <;> cases s <;> rfl

/-- One element and the count leave the direction alone. -/
theorem stride_stringElement :
    ((c.stringElement w op source).setRegister .cx cx).stride w = c.stride w := by
  cases op <;> cases w <;> rfl

/-- The elements of the source that are left when one has been dealt with. -/
theorem inElements_source (loads : op.loads = true)
    (inside : InElements ((c.stringElement w op source).setRegister .cx cx) w s
      ((c.stringElement w op source).setRegister .cx cx).registers.si n a) :
    c.InElements w s c.registers.si (n + 1) a := by
  have si : ((c.stringElement w op source).setRegister .cx cx).registers.si =
      c.registers.si + c.stride w := by
    cases op with
    | movs | cmps | lods => cases w <;> rfl
    | stos | scas => cases loads
  rw [si] at inside
  exact c.inElements_succ (c.address_stringElement s) c.stride_stringElement inside

/-- The elements of the destination that are left when one has been dealt with. -/
theorem inElements_target (target : op.stores = true ∨ op.compares = true)
    (inside : InElements ((c.stringElement w op source).setRegister .cx cx) w s
      ((c.stringElement w op source).setRegister .cx cx).registers.di n a) :
    c.InElements w s c.registers.di (n + 1) a := by
  have di : ((c.stringElement w op source).setRegister .cx cx).registers.di =
      c.registers.di + c.stride w := by
    cases op with
    | movs | cmps | stos | scas => cases w <;> rfl
    | lods => exact absurd target (by decide)
  rw [di] at inside
  exact c.inElements_succ (c.address_stringElement s) c.stride_stringElement inside

end Cpu

/-! ## Where the instruction stands does not matter -/

namespace Cpu

variable (c : Cpu) (x y : Word)

theorem within_relocate (s : Segment) (offset : Word) (n : Nat) :
    (c.relocate x y).Within s offset n = c.Within s offset n := by
  funext a
  simp only [Within, address_relocate]

theorem inOperand_relocate (w : Width) (o : Operand) :
    (c.relocate x y).InOperand w o = c.InOperand w o := by
  funext a
  cases o with
  | register n => rfl
  | memory s offset => simp only [InOperand, within_relocate]

theorem inPlace_relocate (w : Width) (p : Place) :
    (c.relocate x y).InPlace w p = c.InPlace w p := by
  rw [InPlace, registers_relocate, Place.resolve_relocate, inOperand_relocate]
  rfl

theorem inElements_relocate (w : Width) (s : Segment) (start : Word) (n : Nat) :
    (c.relocate x y).InElements w s start n = c.InElements w s start n := by
  funext a
  simp only [InElements, within_relocate]
  rfl

theorem underTop_relocate (n : Nat) : (c.relocate x y).UnderTop n = c.UnderTop n := by
  funext a
  simp only [UnderTop, address_relocate]
  rfl

theorem elements_relocate (repetition : Option Repetition) :
    (c.relocate x y).elements repetition = c.elements repetition := by
  cases repetition <;> rfl

end Cpu

theorem ShiftCount.positions_relocate (count : ShiftCount) (c : Cpu) (x y : Word) :
    count.positions (c.relocate x y) = count.positions c := by
  cases count <;> rfl

namespace Instruction

theorem writes_relocate (i : Instruction) (c : Cpu) (x y : Word) :
    i.Writes (c.relocate x y) = i.Writes c := by
  cases i <;>
    simp only [Writes, Cpu.inPlace_relocate, Cpu.underTop_relocate, Cpu.inElements_relocate,
      Cpu.registers_relocate, Registers.di_relocate, Cpu.elements_relocate,
      ShiftCount.positions_relocate]

end Instruction

end I8086
