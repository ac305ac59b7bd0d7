import I8086.Proofs.Flow
import I8086.Proofs.Footprint

/-!
# Memory that is not read has no influence

Two processors that differ in some bytes of memory only, none of which an instruction reads, do the
same when they execute it: they ask for the same, and again differ in these bytes only.
`Instruction.Reads` says which bytes must not be among them.
-/

namespace I8086.Cpu

/-- The processors differ at most in the bytes at these addresses. -/
structure Alike (K : Address → Prop) (c c' : Cpu) : Prop where
  registers : c'.registers = c.registers
  flags : c'.flags = c.flags
  halted : c'.halted = c.halted
  memory : ∀ a, ¬K a → c'.memory.get a = c.memory.get a

/-- The areas of the memory have no byte in common. -/
def Apart (R K : Address → Prop) : Prop := ∀ a, R a → ¬K a

namespace Alike

variable {K : Address → Prop} {c c' : Cpu}

/-- Where the instruction began makes no difference. -/
theorem setOpIp (alike : Alike K c c') (offset : Word) :
    Alike K { c with registers.opIp := offset } { c' with registers.opIp := offset } where
  registers := by rw [alike.registers]
  flags := alike.flags
  halted := alike.halted
  memory := alike.memory

/-- Only the memory has to be replaced to turn one processor into the other. -/
theorem eq_with (alike : Alike K c c') : c' = { c with memory := c'.memory } := by
  obtain ⟨r, f, μ, h⟩ := c
  obtain ⟨r', f', μ', h'⟩ := c'
  obtain ⟨rfl, rfl, rfl, _⟩ := alike
  rfl

variable (alike : Alike K c c')

include alike

theorem withRegisters (r : Registers) :
    Alike K { c with registers := r } { c' with registers := r } :=
  ⟨rfl, alike.flags, alike.halted, alike.memory⟩

theorem withFlags (f : Flags) : Alike K { c with flags := f } { c' with flags := f } :=
  ⟨alike.registers, rfl, alike.halted, alike.memory⟩

theorem setRegister (name : Register) (v : Word) :
    Alike K (c.setRegister name v) (c'.setRegister name v) := by
  unfold Cpu.setRegister
  rw [alike.registers]
  exact alike.withRegisters _

theorem setWide (w : Width) (v : BitVec (w.bits + w.bits)) :
    Alike K (c.setWide w v) (c'.setWide w v) := by
  cases w <;>
    · simp only [Cpu.setWide, alike.registers]
      exact alike.withRegisters _

theorem divided (w : Width) (result : Option (BitVec (w.bits + w.bits))) :
    Alike K (c.divided w result).1 (c'.divided w result).1 ∧
      (c'.divided w result).2 = (c.divided w result).2 := by
  cases result with
  | none => exact ⟨alike, rfl⟩
  | some v => exact ⟨alike.setWide w v, rfl⟩

theorem jumpFar (cs ip : Word) : Alike K (c.jumpFar cs ip) (c'.jumpFar cs ip) := by
  unfold Cpu.jumpFar
  rw [alike.registers]
  exact alike.withRegisters _

/-! ## Reading -/

theorem address (s : Segment) (offset : Word) : c'.address s offset = c.address s offset := by
  unfold Cpu.address
  rw [alike.registers]

theorem readByte {s : Segment} {offset : Word} (apart : Apart (c.Within s offset 1) K) :
    c'.readByte s offset = c.readByte s offset := by
  have inside : c.Within s offset 1 (c.address s offset) :=
    ⟨0, Nat.one_pos, by rw [BitVec.add_zero]⟩
  unfold Cpu.readByte
  rw [alike.address]
  exact alike.memory _ (apart _ inside)

theorem readWord {s : Segment} {offset : Word} (apart : Apart (c.Within s offset 2) K) :
    c'.readWord s offset = c.readWord s offset := by
  have first : c'.readByte s offset = c.readByte s offset := by
    refine alike.readByte ?_
    rintro a ⟨k, before, rfl⟩
    exact apart _ ⟨k, Nat.lt_succ_of_lt before, rfl⟩
  have second : c'.readByte s (offset + 1) = c.readByte s (offset + 1) := by
    refine alike.readByte ?_
    rintro a ⟨k, before, rfl⟩
    obtain rfl : k = 0 := Nat.lt_one_iff.mp before
    exact apart _ ⟨1, Nat.one_lt_two, by rw [BitVec.add_zero]; rfl⟩
  unfold Cpu.readWord
  rw [first, second]

theorem load {w : Width} {s : Segment} {offset : Word}
    (apart : Apart (c.Within s offset w.bytes) K) : c'.load w s offset = c.load w s offset := by
  cases w with
  | byte => exact alike.readByte apart
  | word => exact alike.readWord apart

theorem readOperand {w : Width} {o : Operand} (apart : Apart (c.InOperand w o) K) :
    c'.readOperand w o = c.readOperand w o := by
  cases o with
  | register n => exact congrArg (·.read w n) alike.registers
  | memory s offset => exact alike.load apart

theorem read {w : Width} {p : Place} (apart : Apart (c.InPlace w p) K) :
    c'.read w p = c.read w p := by
  unfold Cpu.read
  rw [alike.registers]
  exact alike.readOperand apart

theorem readSource {w : Width} {s : Source w} (apart : Apart (c.InSource w s) K) :
    c'.readSource w s = c.readSource w s := by
  cases s with
  | place p => exact alike.read apart
  | immediate v => rfl

theorem readPointer {e : EffectiveAddress} (apart : Apart (c.InPointer e) K) :
    c'.readPointer e = c.readPointer e := by
  have offset : c'.readWord e.segment (e.offset c.registers) =
      c.readWord e.segment (e.offset c.registers) := by
    refine alike.readWord ?_
    rintro a ⟨k, before, rfl⟩
    exact apart _ ⟨k, by omega, rfl⟩
  have segment : c'.readWord e.segment (e.offset c.registers + 2) =
      c.readWord e.segment (e.offset c.registers + 2) := by
    refine alike.readWord ?_
    rintro a ⟨k, before, rfl⟩
    exact apart _ ⟨2 + k, by omega, by rw [BitVec.ofNat_add, ← BitVec.add_assoc]; rfl⟩
  simp only [Cpu.readPointer, alike.registers, offset, segment]

/-! ## Writing -/

theorem writeByte (s : Segment) (offset : Word) (v : Byte) :
    Alike K (c.writeByte s offset v) (c'.writeByte s offset v) := by
  refine ⟨alike.registers, alike.flags, alike.halted, fun a outside => ?_⟩
  show (c'.memory.set (c'.address s offset) v).get a = (c.memory.set (c.address s offset) v).get a
  rw [alike.address, Memory.get_set, Memory.get_set, alike.memory a outside]

theorem writeWord (s : Segment) (offset v : Word) :
    Alike K (c.writeWord s offset v) (c'.writeWord s offset v) :=
  (alike.writeByte s offset v.low).writeByte s (offset + 1) v.high

theorem store (w : Width) (s : Segment) (offset : Word) (v : w.Value) :
    Alike K (c.store w s offset v) (c'.store w s offset v) := by
  cases w with
  | byte => exact alike.writeByte s offset v
  | word => exact alike.writeWord s offset v

theorem writeOperand (w : Width) (v : w.Value) (o : Operand) :
    Alike K (c.writeOperand w v o) (c'.writeOperand w v o) := by
  cases o with
  | register n =>
      simp only [Cpu.writeOperand, alike.registers]
      exact alike.withRegisters _
  | memory s offset => exact alike.store w s offset v

theorem write (w : Width) (p : Place) (v : w.Value) :
    Alike K (c.write w p v) (c'.write w p v) := by
  unfold Cpu.write
  rw [alike.registers]
  exact alike.writeOperand w v _

theorem writeWithFlags (w : Width) (p : Place) (result : w.Value × Flags) :
    Alike K (c.writeWithFlags w p result) (c'.writeWithFlags w p result) :=
  (alike.withFlags result.2).write w p result.1

/-! ## The stack -/

theorem push (v : Word) : Alike K (c.push v) (c'.push v) := by
  unfold Cpu.push
  rw [alike.registers]
  exact (alike.setRegister .sp _).writeWord .ss _ v

theorem fst_pop (apart : Apart (c.OnStack 1) K) : c'.pop.1 = c.pop.1 := by
  unfold Cpu.pop
  rw [alike.registers]
  exact alike.readWord apart

theorem snd_pop : Alike K c.pop.2 c'.pop.2 := by
  unfold Cpu.pop
  rw [alike.registers]
  exact alike.setRegister .sp _

theorem call (ip : Word) : Alike K (c.call ip) (c'.call ip) := by
  unfold Cpu.call Cpu.jump
  rw [alike.registers]
  exact (alike.push _).setRegister .ip ip

theorem callFar (cs ip : Word) : Alike K (c.callFar cs ip) (c'.callFar cs ip) := by
  unfold Cpu.callFar
  rw [alike.registers]
  exact ((alike.push _).push _).jumpFar cs ip

/-- The second of the words on the stack is on top when the first has been taken. -/
theorem fst_pop_pop (apart : Apart (c.OnStack 2) K) : c'.pop.2.pop.1 = c.pop.2.pop.1 := by
  refine alike.snd_pop.fst_pop ?_
  rintro a ⟨k, before, rfl⟩
  exact apart _ ⟨2 + k, by omega, by rw [BitVec.ofNat_add, ← BitVec.add_assoc]; rfl⟩

theorem fst_pop_pop_pop (apart : Apart (c.OnStack 3) K) :
    c'.pop.2.pop.2.pop.1 = c.pop.2.pop.2.pop.1 := by
  refine alike.snd_pop.fst_pop_pop ?_
  rintro a ⟨k, before, rfl⟩
  exact apart _ ⟨2 + k, by omega, by rw [BitVec.ofNat_add, ← BitVec.add_assoc]; rfl⟩

theorem ret {far : Bool} (release : Word) (apart : Apart (c.OnStack (if far then 2 else 1)) K) :
    Alike K (c.ret far release) (c'.ret far release) := by
  have top : c'.pop.1 = c.pop.1 := by
    refine alike.fst_pop ?_
    rintro a ⟨k, before, rfl⟩
    refine apart _ ⟨k, ?_, rfl⟩
    split <;> omega
  cases far with
  | false =>
      have popped := alike.snd_pop
      simp only [Cpu.ret, Bool.false_eq_true, if_false, top, popped.registers, Cpu.jump]
      exact (popped.setRegister .ip _).setRegister .sp _
  | true =>
      have popped := alike.snd_pop.snd_pop
      simp only [Cpu.ret, if_true, top, alike.fst_pop_pop apart, popped.registers]
      exact (popped.jumpFar _ _).setRegister .sp _

theorem iret (apart : Apart (c.OnStack 3) K) : Alike K c.iret c'.iret := by
  have first : Apart (c.OnStack 1) K := by
    rintro a ⟨k, before, rfl⟩
    exact apart _ ⟨k, by omega, rfl⟩
  have second : Apart (c.OnStack 2) K := by
    rintro a ⟨k, before, rfl⟩
    exact apart _ ⟨k, by omega, rfl⟩
  simp only [Cpu.iret, alike.fst_pop first, alike.fst_pop_pop second, alike.fst_pop_pop_pop apart]
  exact (alike.snd_pop.snd_pop.snd_pop.withFlags _).jumpFar _ _

/-! ## String instructions -/

variable {w : Width} {op : StringOp} {source : Segment}

theorem advanceSource : Alike K (c.advanceSource w) (c'.advanceSource w) := by
  rw [alike.eq_with]
  exact ⟨rfl, rfl, rfl, alike.memory⟩

theorem advanceTarget : Alike K (c.advanceTarget w) (c'.advanceTarget w) := by
  rw [alike.eq_with]
  exact ⟨rfl, rfl, rfl, alike.memory⟩

theorem compare (x y : w.Value) : Alike K (c.compare x y) (c'.compare x y) := by
  unfold Cpu.compare
  rw [alike.flags]
  exact alike.withFlags _

theorem stringElement
    (loaded : op.loads = true → Apart (c.Within source c.registers.si w.bytes) K)
    (compared : op.compares = true → Apart (c.Within .es c.registers.di w.bytes) K) :
    Alike K (c.stringElement w op source) (c'.stringElement w op source) := by
  cases op with
  | movs =>
      simp only [Cpu.stringElement, alike.registers, alike.load (loaded rfl)]
      exact (alike.store w .es _ _).advanceSource.advanceTarget
  | cmps =>
      simp only [Cpu.stringElement, alike.registers, alike.load (loaded rfl),
        alike.load (compared rfl)]
      exact (alike.compare _ _).advanceSource.advanceTarget
  | stos =>
      simp only [Cpu.stringElement, alike.registers]
      exact (alike.store w .es _ _).advanceTarget
  | lods =>
      simp only [Cpu.stringElement, alike.registers, alike.load (loaded rfl)]
      exact (alike.writeOperand w _ _).advanceSource
  | scas =>
      simp only [Cpu.stringElement, alike.registers, alike.load (compared rfl)]
      exact (alike.compare _ _).advanceTarget

theorem stringElements {r : Repetition} {n : Nat}
    (loaded : op.loads = true → Apart (c.InElements w source c.registers.si n) K)
    (compared : op.compares = true → Apart (c.InElements w .es c.registers.di n) K) :
    Alike K (Cpu.stringElements w op source r n c) (Cpu.stringElements w op source r n c') := by
  induction n generalizing c c' with
  | zero => exact alike
  | succ n ih =>
      have first : Alike K (c.stringElement w op source) (c'.stringElement w op source) := by
        apply alike.stringElement
        · intro loads a inside
          exact loaded loads a (c.inElements_first inside n.succ_pos)
        · intro compares a inside
          exact compared compares a (c.inElements_first inside n.succ_pos)
      rw [stringElements_succ, stringElements_succ]
      dsimp only
      rw [first.registers]
      have rest := first.setRegister .cx ((c.stringElement w op source).registers.cx - 1)
      rw [rest.flags]
      split
      · exact rest
      · apply ih rest
        · intro loads a inside
          exact loaded loads a (c.inElements_source loads inside)
        · intro compares a inside
          exact compared compares a (c.inElements_target (.inr compares) inside)

theorem string {repetition : Option Repetition}
    (apart : Apart (Instruction.Reads c (.string w op source repetition)) K) :
    Alike K (c.string w op source repetition) (c'.string w op source repetition) := by
  cases repetition with
  | none =>
      apply alike.stringElement
      · intro loads a inside
        exact apart a (.inl ⟨loads, c.inElements_first inside Nat.one_pos⟩)
      · intro compares a inside
        exact apart a (.inr ⟨compares, c.inElements_first inside Nat.one_pos⟩)
  | some r =>
      unfold Cpu.string
      dsimp only
      rw [alike.registers]
      apply alike.stringElements
      · intro loads a inside
        exact apart a (.inl ⟨loads, inside⟩)
      · intro compares a inside
        exact apart a (.inr ⟨compares, inside⟩)

/-! ## Families of instructions -/

theorem alu {op : AluOp} {target : Place} {source : Source w}
    (left : Apart (c.InPlace w target) K) (right : Apart (c.InSource w source) K) :
    Alike K (c.alu w op target source) (c'.alu w op target source) := by
  unfold Cpu.alu
  rw [alike.flags, alike.read left, alike.readSource right]
  dsimp only
  split
  · exact alike.withFlags _
  · exact alike.writeWithFlags w target _

theorem test {left : Place} {right : Source w} (first : Apart (c.InPlace w left) K)
    (second : Apart (c.InSource w right) K) :
    Alike K (c.test w left right) (c'.test w left right) := by
  unfold Cpu.test
  rw [alike.flags, alike.read first, alike.readSource second]
  exact alike.withFlags _

theorem accumulator (w : Width) : c'.accumulator w = c.accumulator w :=
  congrArg (·.read w .accumulator) alike.registers

theorem wide (w : Width) : c'.wide w = c.wide w := by
  rw [alike.eq_with]
  cases w <;> rfl

theorem mul {source : Place} (apart : Apart (c.InPlace w source) K) :
    Alike K (c.mul w source) (c'.mul w source) := by
  unfold Cpu.mul
  rw [alike.flags, alike.read apart, alike.accumulator]
  exact (alike.withFlags _).setWide w _

theorem imul {source : Place} (negated : Bool) (apart : Apart (c.InPlace w source) K) :
    Alike K (c.imul w source negated) (c'.imul w source negated) := by
  unfold Cpu.imul
  rw [alike.flags, alike.read apart, alike.accumulator]
  exact (alike.withFlags _).setWide w _

theorem shift {shift : ShiftOp} {target : Place} {count : ShiftCount}
    (apart : Apart (fun a => count.positions c ≠ 0 ∧ c.InPlace w target a) K) :
    Alike K (c.shift w shift target count) (c'.shift w shift target count) := by
  have same : count.positions c' = count.positions c := by
    rw [alike.eq_with]
    cases count <;> rfl
  rw [shift_eq, shift_eq, same]
  split
  · exact alike
  · rename_i moves
    have value : c'.read w target = c.read w target := by
      exact alike.read fun a inside => apart a ⟨moves, inside⟩
    rw [alike.flags, value]
    exact alike.writeWithFlags w target _

theorem xchg {left right : Place} (first : Apart (c.InPlace w left) K)
    (second : Apart (c.InPlace w right) K) :
    Alike K (c.xchg w left right) (c'.xchg w left right) := by
  unfold Cpu.xchg
  rw [alike.read first, alike.read second]
  exact (alike.write w left _).write w right _

theorem pushPlace {source : Place} (apart : Apart (c.InPlace .word source) K) :
    Alike K (c.pushPlace source) (c'.pushPlace source) := by
  unfold Cpu.pushPlace
  rw [alike.registers, alike.read apart]
  split <;> exact alike.push _

theorem popPlace {target : Place} (apart : Apart (c.OnStack 1) K) :
    Alike K (c.popPlace target) (c'.popPlace target) := by
  unfold Cpu.popPlace
  dsimp only
  rw [alike.registers, alike.fst_pop apart]
  exact alike.snd_pop.writeOperand .word _ _

theorem jumpWhen (taken : Bool) (d : Word) :
    Alike K (c.jumpWhen taken d) (c'.jumpWhen taken d) := by
  rw [alike.eq_with]
  cases taken <;> exact ⟨rfl, rfl, rfl, alike.memory⟩

theorem loop (kind : LoopKind) (d : Word) : Alike K (c.loop kind d) (c'.loop kind d) := by
  unfold Cpu.loop
  rw [alike.registers, alike.flags]
  exact (alike.setRegister .cx _).jumpWhen _ d

/-! ## All instructions -/

/-- An instruction does the same, whatever the bytes are that it does not read. -/
theorem execute {i : Instruction} (apart : Apart (i.Reads c) K) :
    Alike K (c.execute i).1 (c'.execute i).1 ∧ (c'.execute i).2 = (c.execute i).2 := by
  cases i with
  | alu w op target source =>
      exact ⟨alike.alu (fun a inside => apart a (.inl inside))
        (fun a inside => apart a (.inr inside)), rfl⟩
  | test w left right =>
      exact ⟨alike.test (fun a inside => apart a (.inl inside))
        (fun a inside => apart a (.inr inside)), rfl⟩
  | inc w target | dec w target | neg w target =>
      rw [Cpu.execute, Cpu.execute, alike.flags, alike.read apart]
      exact ⟨alike.writeWithFlags w target _, rfl⟩
  | not w target =>
      rw [Cpu.execute, Cpu.execute, alike.read apart]
      exact ⟨alike.write w target _, rfl⟩
  | mul w source => exact ⟨alike.mul apart, rfl⟩
  | imul w source negated => exact ⟨alike.imul negated apart, rfl⟩
  | div w source | idiv w source negated =>
      rw [Cpu.execute, Cpu.execute, alike.wide, alike.read apart]
      exact alike.divided w _
  | shift w op target count => exact ⟨alike.shift apart, rfl⟩
  | mov w target source =>
      rw [Cpu.execute, Cpu.execute, alike.readSource apart]
      exact ⟨alike.write w target _, rfl⟩
  | movFromSegment target s =>
      rw [Cpu.execute, Cpu.execute, alike.registers]
      exact ⟨alike.write .word target _, rfl⟩
  | movToSegment s source =>
      rw [Cpu.execute, Cpu.execute, alike.read apart]
      exact ⟨alike.setRegister _ _, rfl⟩
  | xchg w left right =>
      exact ⟨alike.xchg (fun a inside => apart a (.inl inside))
        (fun a inside => apart a (.inr inside)), rfl⟩
  | loadPointer s n e =>
      rw [Cpu.execute, Cpu.execute, alike.readPointer apart]
      exact ⟨(alike.setRegister _ _).setRegister _ _, rfl⟩
  | xlat s =>
      rw [Cpu.execute, Cpu.execute, alike.registers, alike.readByte apart, alike.eq_with]
      exact ⟨⟨rfl, rfl, rfl, alike.memory⟩, rfl⟩
  | push source => exact ⟨alike.pushPlace apart, rfl⟩
  | pop target => exact ⟨alike.popPlace apart, rfl⟩
  | pushSegment s =>
      rw [Cpu.execute, Cpu.execute, alike.registers]
      exact ⟨alike.push _, rfl⟩
  | pushf =>
      rw [Cpu.execute, Cpu.execute, alike.flags]
      exact ⟨alike.push _, rfl⟩
  | popSegment s =>
      refine ⟨?_, rfl⟩
      simp only [Cpu.execute, alike.fst_pop apart]
      exact alike.snd_pop.setRegister _ _
  | popf =>
      refine ⟨?_, rfl⟩
      simp only [Cpu.execute, alike.fst_pop apart]
      exact alike.snd_pop.withFlags _
  | jumpIf condition negated d =>
      rw [Cpu.execute, Cpu.execute, alike.flags]
      exact ⟨alike.jumpWhen _ d, rfl⟩
  | loop kind d => exact ⟨alike.loop kind d, rfl⟩
  | jcxz d =>
      rw [Cpu.execute, Cpu.execute, alike.registers]
      exact ⟨alike.jumpWhen _ d, rfl⟩
  | jumpTo target =>
      rw [Cpu.execute, Cpu.execute, alike.read apart]
      exact ⟨alike.setRegister .ip _, rfl⟩
  | jumpToPointer e =>
      rw [Cpu.execute, Cpu.execute, alike.readPointer apart]
      exact ⟨alike.jumpFar _ _, rfl⟩
  | call d =>
      rw [Cpu.execute, Cpu.execute, alike.registers]
      exact ⟨alike.call _, rfl⟩
  | callFar cs ip => exact ⟨alike.callFar cs ip, rfl⟩
  | callTo target =>
      rw [Cpu.execute, Cpu.execute, alike.read apart]
      exact ⟨alike.call _, rfl⟩
  | callToPointer e =>
      rw [Cpu.execute, Cpu.execute, alike.readPointer apart]
      exact ⟨alike.callFar _ _, rfl⟩
  | ret far release => exact ⟨alike.ret release apart, rfl⟩
  | iret => exact ⟨alike.iret apart, rfl⟩
  | string w op source repetition => exact ⟨alike.string apart, rfl⟩
  | input w port =>
      rw [Cpu.execute, Cpu.execute, alike.registers]
      exact ⟨alike.writeOperand w (Port.read w (port.number c.registers)) (.register .accumulator),
        rfl⟩
  | aam base =>
      rw [alike.eq_with]
      simp only [Cpu.execute]
      split <;> exact ⟨⟨rfl, rfl, rfl, alike.memory⟩, rfl⟩
  | _ =>
      rw [alike.eq_with]
      exact ⟨⟨rfl, rfl, rfl, alike.memory⟩, rfl⟩

/-- Where an instruction leads does not depend on memory. -/
theorem flow (i : Instruction) : i.flow c' = i.flow c := by
  rw [alike.eq_with]
  cases i <;> rfl

end Alike

end I8086.Cpu
