import I8086.Proofs.Confinement
import I8086.Proofs.Output

/-!
# The vector table

The first kibibyte of memory is a table of 256 far pointers, offset before segment. Programs write
to it word by word through a segment, the host and the service that sets a vector by linear
addresses. All of them store words at even addresses, and such words never overlap. `VectorHistory`
lists what has been written to the table, in whatever way; of each entry the word written last is
found, by those who read the table and by an interrupt that enters the routine.
-/

namespace I8086

/-! ## Entries -/

namespace Cpu

variable {c c' : Cpu} {u v : Byte}

/-- Entries take four bytes each. -/
theorem toNat_vectorAddress (v : Byte) : (vectorAddress v).toNat = 4 * v.toNat := by
  have hv := v.isLt
  rw [vectorAddress, BitVec.toNat_shiftLeft, BitVec.toNat_setWidth, Nat.shiftLeft_eq]
  omega

theorem toNat_vectorAddress_add (v : Byte) : (vectorAddress v + 2).toNat = 4 * v.toNat + 2 := by
  have hv := v.isLt
  have two : (2 : Address).toNat = 2 := rfl
  rw [BitVec.toNat_add, toNat_vectorAddress, two]
  omega

theorem vectorAddress_inj : vectorAddress u = vectorAddress v ↔ u = v := by
  constructor
  · intro same
    have := congrArg BitVec.toNat same
    rw [toNat_vectorAddress, toNat_vectorAddress] at this
    exact BitVec.eq_of_toNat_eq (by omega)
  · rintro rfl
    rfl

/-- An entry holds the offset in its first word and the segment in its second one. -/
theorem readVector_eq (c : Cpu) (v : Byte) :
    c.readVector v = (c.memory.word (vectorAddress v + 2), c.memory.word (vectorAddress v)) := rfl

/-- The offset of one entry is replaced, and every other word of the table stays. -/
theorem readVector_of_offset {x : Word}
    (stored : c'.memory = c.memory.storeWord (vectorAddress v) x) (u : Byte) :
    c'.readVector u = ((c.readVector u).1, if u = v then x else (c.readVector u).2) := by
  have even := toNat_vectorAddress v
  have first := toNat_vectorAddress u
  have second := toNat_vectorAddress_add u
  have apart : vectorAddress u + 2 ≠ vectorAddress v := by
    intro same
    have := congrArg BitVec.toNat same
    omega
  rw [readVector_eq, readVector_eq, stored, Memory.word_storeWord _ _ (by omega) (by omega),
    Memory.word_storeWord _ _ (by omega) (by omega), if_neg apart]
  simp only [vectorAddress_inj]

/-- So is the segment of one entry. -/
theorem readVector_of_segment {x : Word}
    (stored : c'.memory = c.memory.storeWord (vectorAddress v + 2) x) (u : Byte) :
    c'.readVector u = (if u = v then x else (c.readVector u).1, (c.readVector u).2) := by
  have even := toNat_vectorAddress_add v
  have first := toNat_vectorAddress u
  have second := toNat_vectorAddress_add u
  have apart : vectorAddress u ≠ vectorAddress v + 2 := by
    intro same
    have := congrArg BitVec.toNat same
    omega
  have segments : vectorAddress u + 2 = vectorAddress v + 2 ↔ u = v :=
    (BitVec.add_left_inj _).trans vectorAddress_inj
  rw [readVector_eq, readVector_eq, stored, Memory.word_storeWord _ _ (by omega) (by omega),
    Memory.word_storeWord _ _ (by omega) (by omega), if_neg apart]
  simp only [segments]

/-- An entry is written as two words at linear addresses, the offset first. -/
theorem memory_writeVector (c : Cpu) (v : Byte) (segment offset : Word) :
    (c.writeVector v segment offset).memory =
      (c.memory.storeWord (vectorAddress v) offset).storeWord (vectorAddress v + 2) segment := by
  have third : vectorAddress v + 1 + 1 = vectorAddress v + 2 := BitVec.add_assoc _ _ _
  simp only [writeVector, Memory.storeWord, Memory.store, third]

theorem readVector_writeVector (c : Cpu) (v : Byte) (segment offset : Word) (u : Byte) :
    (c.writeVector v segment offset).readVector u =
      if u = v then (segment, offset) else c.readVector u := by
  let half : Cpu := { c with memory := c.memory.storeWord (vectorAddress v) offset }
  have first : half.readVector u =
      ((c.readVector u).1, if u = v then offset else (c.readVector u).2) :=
    readVector_of_offset rfl u
  have stored : (c.writeVector v segment offset).memory =
      half.memory.storeWord (vectorAddress v + 2) segment := memory_writeVector c v segment offset
  rw [readVector_of_segment stored u, first]
  split <;> rfl

/-- What is written to the table stays inside it. -/
theorem get_writeVector (c : Cpu) (v : Byte) (segment offset : Word) {a : Address}
    (outside : ¬(4 * v.toNat ≤ a.toNat ∧ a.toNat < 4 * v.toNat + 4)) :
    (c.writeVector v segment offset).memory.get a = c.memory.get a := by
  have start := toNat_vectorAddress v
  have far : ¬(a - vectorAddress v).toNat < 4 := by
    bv_omega
  have fits : [offset.low, offset.high, segment.low, segment.high].length ≤ memorySize :=
    show 4 ≤ memorySize by decide
  exact (c.memory.get_store (vectorAddress v) a fits).trans (dif_neg far)

/-- A word that a program stores at an even address is stored as by the host: the offset is not the
last one of its segment, behind which the segment begins again. -/
theorem memory_writeWord_of_even (c : Cpu) (s : Segment) (offset : Word)
    (even : (c.address s offset).toNat % 2 = 0) (x : Word) :
    (c.writeWord s offset x).memory = c.memory.storeWord (c.address s offset) x := by
  apply c.memory_writeWord_of_inner s _ x
  -- Segments begin at multiples of sixteen, so an even address has an even offset.
  rintro rfl
  rw [address, Address.toNat_translate] at even
  simp only [memorySize] at even
  bv_omega

end Cpu

/-! ## What has been written -/

/-- A write to the table: to a whole entry or to one of its words. -/
inductive VectorWrite where
  | pointer (vector : Byte) (segment offset : Word)
  | segment (vector : Byte) (value : Word)
  | offset (vector : Byte) (value : Word)
deriving DecidableEq

namespace VectorWrite

/-- The segment that a vector gets. -/
def segment? (v : Byte) : VectorWrite → Option Word
  | pointer u value _ | segment u value => if v = u then some value else none
  | offset _ _ => none

/-- The offset that a vector gets. -/
def offset? (v : Byte) : VectorWrite → Option Word
  | pointer u _ value | offset u value => if v = u then some value else none
  | segment _ _ => none

/-- The pointer that a vector has after these writes, if it had another one before: of each half the
one written last. -/
def pointerAfter (v : Byte) (writes : List VectorWrite) (before : Word × Word) : Word × Word :=
  ((writes.filterMap (segment? v)).getLast?.getD before.1,
    (writes.filterMap (offset? v)).getLast?.getD before.2)

/-- One more write. -/
theorem pointerAfter_append (v : Byte) (writes : List VectorWrite) (write : VectorWrite)
    (before : Word × Word) :
    pointerAfter v (writes ++ [write]) before =
      ((write.segment? v).getD (pointerAfter v writes before).1,
        (write.offset? v).getD (pointerAfter v writes before).2) := by
  simp only [pointerAfter, List.filterMap_append, List.getLast?_append]
  cases segment : write.segment? v <;> cases offset : write.offset? v <;>
    simp [segment, offset]

end VectorWrite

open Dos in
/-- From `start` the processor has come to be another one, and this has been written to the vector
table on the way. In between, registers, flags and the rest of memory may change in any way. -/
inductive VectorHistory {C : Type} [Console C] (config : Config) (start : Cpu) :
    List VectorWrite → Cpu → Prop where
  | start : VectorHistory config start [] start
  | between {writes c c'} : VectorHistory config start writes c →
      (∀ a : Address, a.toNat < 0x400 → c'.memory.get a = c.memory.get a) →
      VectorHistory config start writes c'
  /-- The service that sets a vector. -/
  | service {writes c} (t : Terminal C) : VectorHistory config start writes c →
      c.registers.high .ax = 0x25 →
      VectorHistory config start
        (writes ++ [.pointer (c.registers.low .ax) c.registers.ds c.registers.dx])
        (serve config serviceVector c t).cpu
  /-- The host sets a vector. -/
  | pointer {writes c} (vector : Byte) (segment offset : Word) :
      VectorHistory config start writes c →
      VectorHistory config start (writes ++ [.pointer vector segment offset])
        (c.writeVector vector segment offset)
  /-- The program stores the offset of a vector, through whatever segment and offset. -/
  | offset {writes c} (vector : Byte) (s : Segment) (place value : Word) :
      VectorHistory config start writes c → (c.address s place).toNat = 4 * vector.toNat →
      VectorHistory config start (writes ++ [.offset vector value]) (c.writeWord s place value)
  /-- The program stores the segment of a vector. -/
  | segment {writes c} (vector : Byte) (s : Segment) (place value : Word) :
      VectorHistory config start writes c → (c.address s place).toNat = 4 * vector.toNat + 2 →
      VectorHistory config start (writes ++ [.segment vector value]) (c.writeWord s place value)

namespace VectorHistory

open Dos VectorWrite

variable {C : Type} [Console C] {config : Config} {start c : Cpu} {writes : List VectorWrite}

theorem serve_setVector (t : Terminal C) (number : c.registers.high .ax = 0x25) :
    serve config serviceVector c t =
      ⟨.ok .done,
        c.writeVector (c.registers.low .ax) c.registers.ds c.registers.dx, t⟩ := by
  have performs : serve config serviceVector c t = perform config .setVector c t :=
    serve_of_number (by rw [number]; rfl)
  rw [performs]
  rfl

theorem serve_getVector (t : Terminal C) (number : c.registers.high .ax = 0x35) :
    serve config serviceVector c t =
      ⟨.ok .done,
        { c with registers := { c.registers with
            es := (c.readVector (c.registers.low .ax)).1
            bx := (c.readVector (c.registers.low .ax)).2 } }, t⟩ := by
  have performs : serve config serviceVector c t = perform config .getVector c t :=
    serve_of_number (by rw [number]; rfl)
  rw [performs]
  rfl

/-- Every entry holds what has been written to it last. -/
theorem readVector_eq (history : VectorHistory (C := C) config start writes c) (vector : Byte) :
    c.readVector vector = pointerAfter vector writes (start.readVector vector) := by
  induction history with
  | start => rfl
  | @between writes c c' _ table ih =>
      have first := Cpu.toNat_vectorAddress vector
      have second := Cpu.toNat_vectorAddress_add vector
      have small := vector.isLt
      -- Both words of an entry lie inside the table.
      have word (a : Address) (inside : a.toNat + 1 < 0x400) :
          c'.memory.word a = c.memory.word a := by
        rw [Memory.word, Memory.word, table a (by omega), table (a + 1) (by bv_omega)]
      rw [← ih, Cpu.readVector_eq, Cpu.readVector_eq, word _ (by omega), word _ (by omega)]
  | @service writes c t _ number ih =>
      rw [serve_setVector t number, Cpu.readVector_writeVector, pointerAfter_append, ← ih]
      by_cases same : vector = c.registers.low .ax <;> simp [segment?, offset?, same]
  | pointer v segment offset _ ih =>
      rw [Cpu.readVector_writeVector, pointerAfter_append, ← ih]
      by_cases same : vector = v <;> simp [segment?, offset?, same]
  | @offset writes c v s place value _ there ih =>
      have address : c.address s place = Cpu.vectorAddress v :=
        BitVec.eq_of_toNat_eq (there.trans (Cpu.toNat_vectorAddress v).symm)
      have stored := c.memory_writeWord_of_even s place (by omega) value
      rw [address] at stored
      rw [Cpu.readVector_of_offset stored, pointerAfter_append, ← ih]
      by_cases same : vector = v <;> simp [segment?, offset?, same]
  | @segment writes c v s place value _ there ih =>
      have address : c.address s place = Cpu.vectorAddress v + 2 :=
        BitVec.eq_of_toNat_eq (there.trans (Cpu.toNat_vectorAddress_add v).symm)
      have stored := c.memory_writeWord_of_even s place (by omega) value
      rw [address] at stored
      rw [Cpu.readVector_of_segment stored, pointerAfter_append, ← ih]
      by_cases same : vector = v <;> simp [segment?, offset?, same]

end VectorHistory

/-! ## Where interrupts lead -/

namespace Machine

variable {World : Type} {m : Machine World} {vector : Byte}

/-- Control goes where the entry points. -/
theorem raise_transfers (free : m.bus.target? vector = none)
    (entry : m.cpu.readVector vector ≠ (0, 0)) :
    (m.raise vector).1 = .ok .next ∧
      (m.raise vector).2.cpu.registers.cs = (m.cpu.readVector vector).1 ∧
      (m.raise vector).2.cpu.registers.ip = (m.cpu.readVector vector).2 := by
  rw [raise_of_entry free entry]
  refine ⟨rfl, ?_, ?_⟩
  · exact congrArg Registers.cs (Cpu.registers_enter _ .interrupt _ _)
  · exact congrArg Registers.ip (Cpu.registers_enter _ .interrupt _ _)

/-- An interrupt instruction has been passed when its interrupt is delivered. -/
theorem step_of_interrupt (running : m.cpu.halted = false) {length : Nat}
    (fetched : m.fetched = .instruction (.interrupt vector) length) :
    m.step = concluded ((m.markStart.executed (.interrupt vector) length).raise vector) := by
  rw [step_of_instruction running fetched, perform_eq, signal_eq]
  rfl

/-- Such an instruction transfers control as well. -/
theorem step_transfers (running : m.cpu.halted = false) {length : Nat}
    (fetched : m.fetched = .instruction (.interrupt vector) length)
    (free : m.bus.target? vector = none) (entry : m.cpu.readVector vector ≠ (0, 0)) :
    m.step.1 = .ok .next ∧ m.step.2.cpu.registers.cs = (m.cpu.readVector vector).1 ∧
      m.step.2.cpu.registers.ip = (m.cpu.readVector vector).2 := by
  have asks : (m.markStart.cpu.execute (.interrupt vector)).2 = .interrupt vector := rfl
  have table := (readVector_executed asks length).trans (readVector_markStart m vector)
  have free' : (m.markStart.executed (.interrupt vector) length).bus.target? vector = none := by
    rw [← free, ← m.bus_markStart]
    rfl
  obtain ⟨next, cs, ip⟩ := raise_transfers free' (table ▸ entry)
  rw [table] at cs ip
  rw [step_of_interrupt running fetched, fst_concluded, cpu_concluded_of_ok next]
  exact ⟨next, cs, ip⟩

end Machine

open Dos VectorWrite in
/-- The vector table behaves like 256 independent far pointers. Whatever has been written to it, by
the service, by the host, or by the program word by word: the pointer of a vector is made of the
offset and the segment written for this vector last, or found there in the beginning. The host reads
it, as two words at linear addresses, the service delivers it, and unless it is zero and unless a
handler has the vector, control is transferred to it by the interrupt and by the instruction that
asks for it. The service and the host change nothing outside the entry that they set. -/
theorem vectors_independent {C : Type} [Console C] {config : Config} {start c : Cpu}
    {writes : List VectorWrite} (history : VectorHistory (C := C) config start writes c)
    (vector : Byte) :
    let pointer := pointerAfter vector writes (start.readVector vector)
    (c.readVector vector = pointer ∧
      c.memory.readWord (4 * vector.toNat) = .ok pointer.2 ∧
      c.memory.readWord (4 * vector.toNat + 2) = .ok pointer.1) ∧
    (∀ t : Terminal C, c.registers.high .ax = 0x35 → c.registers.low .ax = vector →
      serve config serviceVector c t =
        ⟨.ok .done,
          { c with registers := { c.registers with es := pointer.1, bx := pointer.2 } }, t⟩) ∧
    (∀ {World : Type} (m : Machine World), m.cpu = c → m.bus.target? vector = none →
      pointer ≠ (0, 0) →
      let raised := m.raise vector
      (raised.1 = .ok .next ∧ raised.2.cpu.registers.cs = pointer.1 ∧
        raised.2.cpu.registers.ip = pointer.2) ∧
      ∀ length, c.halted = false → m.fetched = .instruction (.interrupt vector) length →
        m.step.1 = .ok .next ∧ m.step.2.cpu.registers.cs = pointer.1 ∧
          m.step.2.cpu.registers.ip = pointer.2) ∧
    (∀ (c : Cpu) (segment offset : Word) (a : Address),
      ¬(4 * vector.toNat ≤ a.toNat ∧ a.toNat < 4 * vector.toNat + 4) →
      (c.writeVector vector segment offset).memory.get a = c.memory.get a ∧
      ∀ t : Terminal C, c.registers.high .ax = 0x25 → c.registers.low .ax = vector →
        (serve config serviceVector c t).cpu.memory.get a = c.memory.get a) := by
  intro pointer
  have entry : c.readVector vector = pointer := history.readVector_eq vector
  refine ⟨⟨entry, ?_, ?_⟩, ?_, ?_, ?_⟩
  · rw [Nat.mul_comm, (c.readWord_vectorTable vector).1, entry]
  · rw [Nat.mul_comm, (c.readWord_vectorTable vector).2, entry]
  · intro t number low
    rw [VectorHistory.serve_getVector t number, low, entry]
  · intro World m cpu free set raised
    subst cpu
    rw [← entry] at set
    obtain ⟨next, cs, ip⟩ := Machine.raise_transfers free set
    rw [entry] at cs ip
    refine ⟨⟨next, cs, ip⟩, ?_⟩
    intro length running fetched
    obtain ⟨next, cs, ip⟩ := Machine.step_transfers running fetched free set
    rw [entry] at cs ip
    exact ⟨next, cs, ip⟩
  · intro c segment offset a outside
    refine ⟨c.get_writeVector vector segment offset outside, ?_⟩
    intro t number low
    rw [VectorHistory.serve_setVector t number, low]
    exact c.get_writeVector vector _ _ outside

open Dos in
/-- The offset of vector 21h is stored through the last segment, whose offset 94h lies behind the
top of memory, and its segment through segment 0. The vectors next to it are set by the host and by
the service. -/
theorem vectors_independent_of_aliases :
    let c₁ : Cpu := { registers := { ax := 0x2522, ds := 0xFFFF } }
    let c₂ := (c₁.writeWord .ds 0x0094 0x0200).writeWord .es 0x0086 0x1000
    let c₃ := c₂.writeVector 0x20 0xAAAA 0xBBBB
    let t : Terminal Script := { console := {} }
    let m : Machine Unit := { cpu := (serve {} serviceVector c₃ t).cpu, world := () }
    (m.raise 0x21).1 = .ok .next ∧ (m.raise 0x21).2.cpu.registers.cs = 0x1000 ∧
      (m.raise 0x21).2.cpu.registers.ip = 0x0200 := by
  intro c₁ c₂ c₃ t m
  have begun : VectorHistory (C := Script) {} {} [] c₁ := .between .start fun _ _ => rfl
  have first := begun.offset 0x21 .ds 0x0094 0x0200 (by decide)
  have second := first.segment 0x21 .es 0x0086 0x1000 rfl
  have third := second.pointer 0x20 0xAAAA 0xBBBB
  have fourth := third.service t (show Word.high 0x2522 = 0x25 by decide)
  have low : c₃.registers.low .ax = 0x22 := show Word.low 0x2522 = 0x22 by decide
  rw [low] at fourth
  have pointer : VectorWrite.pointerAfter 0x21
      [.offset 0x21 0x0200, .segment 0x21 0x1000, .pointer 0x20 0xAAAA 0xBBBB,
        .pointer 0x22 0xFFFF 0] (({} : Cpu).readVector 0x21) = (0x1000, 0x0200) := by decide
  obtain ⟨⟨next, cs, ip⟩, _⟩ := (vectors_independent fourth 0x21).2.2.1 m rfl rfl (by decide)
  exact ⟨next, cs.trans (congrArg Prod.fst pointer), ip.trans (congrArg Prod.snd pointer)⟩

end I8086
