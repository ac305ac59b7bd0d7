import I8086.Proofs.Checked.Access

/-!
# Memory through segments

A program reaches memory through a segment register and an offset. Up to 4096 such pairs name one
byte, the second byte of a word may lie at the other end of its segment or of memory, and what a
pair names changes with the registers. `SegmentWrite.stored` lists, in numbers alone, the bytes that
a sequence of writes stores and their places; `latest` finds the one stored last. After any writes
this byte is read, by whichever pair, and the host refuses none of the accesses. A word that lies in
one piece is the one that the host finds at its linear address.
-/

namespace I8086

/-- The linear address of an offset in a segment, by numbers. -/
def Registers.linearAddress (r : Registers) (s : Segment) (offset : Nat) : Nat :=
  (16 * (r.segment s).toNat + offset) % 0x100000

/-! ## Writes -/

/-- A write through a segment, or to the registers, after which segments may begin elsewhere. -/
inductive SegmentWrite where
  | byte (s : Segment) (offset : Word) (v : Byte)
  | word (s : Segment) (offset v : Word)
  | registers (r : Registers)

namespace SegmentWrite

/-- The registers after a write. -/
def registersAfter (r : Registers) : SegmentWrite → Registers
  | registers new => new
  | byte _ _ _ | word _ _ _ => r

/-- The bytes that a write stores, each with its linear address, in their order. The last offset of
a segment is followed by the first one. -/
def bytes (r : Registers) : SegmentWrite → List (Nat × Byte)
  | byte s offset v => [(r.linearAddress s offset.toNat, v)]
  | word s offset v =>
    [(r.linearAddress s offset.toNat, BitVec.ofNat 8 (v.toNat % 0x100)),
      (r.linearAddress s ((offset.toNat + 1) % 0x10000), BitVec.ofNat 8 (v.toNat / 0x100))]
  | registers _ => []

/-- The bytes that a sequence of writes stores, each of them through the registers of its time. -/
def stored (r : Registers) : List SegmentWrite → List (Nat × Byte)
  | [] => []
  | w :: ws => w.bytes r ++ stored (w.registersAfter r) ws

/-- The byte at a linear address: the last one stored there, or else the one from before. -/
def latest (bytes : List (Nat × Byte)) (i : Nat) (before : Byte) : Byte :=
  ((bytes.filter (·.1 = i)).map (·.2)).getLast?.getD before

theorem latest_append (first rest : List (Nat × Byte)) (i : Nat) (before : Byte) :
    latest (first ++ rest) i before = latest rest i (latest first i before) := by
  simp only [latest, List.filter_append, List.map_append, List.getLast?_append, Option.getD_or]

theorem latest_singleton (place : Nat) (v : Byte) (i : Nat) (before : Byte) :
    latest [(place, v)] i before = if i = place then v else before := by
  by_cases here : i = place
  · simp [latest, here]
  · simp [latest, here, Ne.symm here]

end SegmentWrite

namespace Cpu

/-- Carries out a write. -/
def applyWrite (c : Cpu) : SegmentWrite → Cpu
  | .byte s offset v => c.writeByte s offset v
  | .word s offset v => c.writeWord s offset v
  | .registers r => { c with registers := r }

/-- The processor after a sequence of writes. -/
def afterWrites (c : Cpu) (writes : List SegmentWrite) : Cpu := writes.foldl applyWrite c

end Cpu

namespace Checked

/-- Carries out a write, which the host may refuse. -/
def applyWrite (c : Cpu) : SegmentWrite → Checked Cpu
  | .byte s offset v => writeByte c s offset v
  | .word s offset v => writeWord c s offset v
  | .registers r => pure { c with registers := r }

/-- Carries out a sequence of writes up to the first one that is refused. -/
def applyWrites (c : Cpu) (writes : List SegmentWrite) : Checked Cpu := writes.foldlM applyWrite c

theorem applyWrite_eq (c : Cpu) (w : SegmentWrite) : applyWrite c w = pure (c.applyWrite w) := by
  cases w with
  | byte s offset v => exact writeByte_eq c s offset v
  | word s offset v => exact writeWord_eq c s offset v
  | registers r => rfl

/-- No write of a sequence is refused. -/
theorem applyWrites_eq (c : Cpu) (writes : List SegmentWrite) :
    applyWrites c writes = pure (c.afterWrites writes) := by
  induction writes generalizing c with
  | nil => rfl
  | cons w ws ih =>
      rw [applyWrites, List.foldlM_cons, applyWrite_eq, pure_bind]
      exact ih (c.applyWrite w)

end Checked

/-! ## What is there afterwards -/

theorem Word.ofNat_toNat_mod (v : Word) : BitVec.ofNat 8 (v.toNat % 0x100) = v.low := by
  apply BitVec.eq_of_toNat_eq
  rw [low, BitVec.toNat_ofNat, BitVec.toNat_setWidth]
  exact Nat.mod_mod v.toNat 0x100

theorem Word.ofNat_toNat_div (v : Word) : BitVec.ofNat 8 (v.toNat / 0x100) = v.high := by
  rw [high, BitVec.extractLsb', Nat.shiftRight_eq_div_pow]

namespace Cpu

open SegmentWrite

theorem toNat_address (c : Cpu) (s : Segment) (offset : Word) :
    (c.address s offset).toNat = c.registers.linearAddress s offset.toNat :=
  Address.toNat_translate _ offset

theorem toNat_address_succ (c : Cpu) (s : Segment) (offset : Word) :
    (c.address s (offset + 1)).toNat =
      c.registers.linearAddress s ((offset.toNat + 1) % 0x10000) := by
  rw [toNat_address, BitVec.toNat_add]
  rfl

/-- An address is that of an offset in a segment exactly if it has its number. -/
theorem toNat_eq_linearAddress_iff (c : Cpu) (s : Segment) (offset : Word) (a : Address) :
    a.toNat = c.registers.linearAddress s offset.toNat ↔ a = c.address s offset := by
  rw [← toNat_address, BitVec.toNat_inj]

theorem toNat_eq_linearAddress_succ_iff (c : Cpu) (s : Segment) (offset : Word) (a : Address) :
    a.toNat = c.registers.linearAddress s ((offset.toNat + 1) % 0x10000) ↔
      a = c.address s (offset + 1) := by
  rw [← toNat_address_succ, BitVec.toNat_inj]

theorem registers_applyWrite (c : Cpu) (w : SegmentWrite) :
    (c.applyWrite w).registers = w.registersAfter c.registers := by
  cases w <;> rfl

/-- A write replaces the bytes that it stores and no others. -/
theorem get_applyWrite (c : Cpu) (w : SegmentWrite) (a : Address) :
    (c.applyWrite w).memory.get a =
      latest (w.bytes c.registers) a.toNat (c.memory.get a) := by
  cases w with
  | byte s offset v =>
      simp only [bytes, latest_singleton, toNat_eq_linearAddress_iff]
      exact c.memory.get_set _ a v
  | word s offset v =>
      have inTurn (low high : Nat × Byte) : [low, high] = [low] ++ [high] := rfl
      simp only [bytes, inTurn, latest_append, latest_singleton, toNat_eq_linearAddress_iff,
        toNat_eq_linearAddress_succ_iff, Word.ofNat_toNat_mod, Word.ofNat_toNat_div]
      exact c.get_writeWord s offset v a
  | registers r => rfl

/-- After a sequence of writes every byte is the one stored there last. -/
theorem get_afterWrites (c : Cpu) (writes : List SegmentWrite) (a : Address) :
    (c.afterWrites writes).memory.get a =
      latest (stored c.registers writes) a.toNat (c.memory.get a) := by
  induction writes generalizing c with
  | nil => rfl
  | cons w ws ih =>
      -- What the first write leaves is what the others find.
      have rest := ih (c.applyWrite w)
      rw [registers_applyWrite, get_applyWrite, ← latest_append] at rest
      exact rest

theorem readByte_afterWrites (c : Cpu) (writes : List SegmentWrite) (s : Segment) (offset : Word) :
    let last := c.afterWrites writes
    let i := last.registers.linearAddress s offset.toNat
    last.readByte s offset =
      latest (stored c.registers writes) i (c.memory.get (BitVec.ofNat 20 i)) := by
  intro last i
  have place : (last.address s offset).toNat = i := last.toNat_address s offset
  have address : BitVec.ofNat 20 i = last.address s offset := by
    rw [← place, BitVec.ofNat_toNat, BitVec.setWidth_eq]
  rw [address, ← place]
  exact c.get_afterWrites writes (last.address s offset)

/-- Writes change registers and memory and nothing else. -/
theorem afterWrites_eq (c : Cpu) (writes : List SegmentWrite) :
    c.afterWrites writes =
      { c with
        registers := writes.foldl registersAfter c.registers
        memory := (c.afterWrites writes).memory } := by
  induction writes generalizing c with
  | nil => rfl
  | cons w ws ih =>
      refine (ih (c.applyWrite w)).trans ?_
      cases w <;> rfl

/-! ## Words -/

theorem toNat_readWord (c : Cpu) (s : Segment) (offset : Word) :
    (c.readWord s offset).toNat =
      (c.readByte s offset).toNat + 256 * (c.readByte s (offset + 1)).toNat := by
  rw [readWord, Word.toNat_ofBytes]
  omega

/-- A word is written as two bytes, the low one first. -/
theorem writeWord_eq_writeByte (c : Cpu) (s : Segment) (offset v : Word) :
    c.writeWord s offset v =
      (c.writeByte s offset (BitVec.ofNat 8 (v.toNat % 0x100))).writeByte s (offset + 1)
        (BitVec.ofNat 8 (v.toNat / 0x100)) := by
  rw [Word.ofNat_toNat_mod, Word.ofNat_toNat_div, writeWord]

/-- The two bytes of a word lie apart, and writing it replaces them alone. -/
theorem get_writeWord_linearAddress (c : Cpu) (s : Segment) (offset v : Word) (a : Address) :
    (c.writeWord s offset v).memory.get a =
      if a.toNat = c.registers.linearAddress s offset.toNat then
        BitVec.ofNat 8 (v.toNat % 0x100)
      else if a.toNat = c.registers.linearAddress s ((offset.toNat + 1) % 0x10000) then
        BitVec.ofNat 8 (v.toNat / 0x100)
      else c.memory.get a := by
  rw [get_writeWord, Word.ofNat_toNat_mod, Word.ofNat_toNat_div]
  simp only [toNat_eq_linearAddress_iff, toNat_eq_linearAddress_succ_iff]
  by_cases low : a = c.address s offset
  · subst low
    rw [if_neg (c.address_succ_ne s offset).symm, if_pos rfl, if_pos rfl]
  · rw [if_neg low, if_neg low]

/-- A word in one piece is the one at its linear address. -/
theorem readWord_of_below_top (c : Cpu) (s : Segment) {offset : Word} (inner : offset ≠ 0xFFFF)
    (below : (c.address s offset).toNat ≠ 0xFFFFF) :
    c.memory.readWord (c.address s offset).toNat = .ok (c.readWord s offset) := by
  rw [Memory.readWord_toNat _ below, c.readWord_of_inner s inner]

/-- It is written there, too, and nothing else is changed. -/
theorem writeWord_of_below_top (c : Cpu) (s : Segment) {offset : Word} (inner : offset ≠ 0xFFFF)
    (below : (c.address s offset).toNat ≠ 0xFFFFF) (v : Word) :
    (c.memory.writeWord (c.address s offset).toNat v).map (fun memory => { c with memory }) =
      .ok (c.writeWord s offset v) := by
  rw [Memory.writeWord_toNat _ below, ← c.memory_writeWord_of_inner s inner]
  rfl

/-- Memory seen through segments is one store of bytes. After any writes through segments, with
whatever registers in between, none of which the host refuses: every pair of a segment and an offset
reads the byte that has been stored last at its linear address, through whichever pair, or the one
that has been there in the beginning. A word consists of the byte at its offset and the one at the
next offset of the segment, and these two are what writing a word replaces, the low one first. Where
they follow each other in linear memory, too, the word is the one that the host reads and writes at
the linear address. Of the rest only the registers have changed, to those that were set last. -/
theorem read_afterWrites (c : Cpu) (writes : List SegmentWrite) :
    let last := c.afterWrites writes
    (Checked.applyWrites c writes = pure last ∧
      last = { c with
        registers := writes.foldl registersAfter c.registers
        memory := last.memory }) ∧
    ∀ (s : Segment) (offset : Word),
      let i := last.registers.linearAddress s offset.toNat
      let j := last.registers.linearAddress s ((offset.toNat + 1) % 0x10000)
      (Checked.translate (last.registers.segment s) offset = pure i ∧
        Checked.readByte last s offset = pure (last.readByte s offset) ∧
        last.readByte s offset =
          latest (stored c.registers writes) i (c.memory.get (BitVec.ofNat 20 i))) ∧
      (Checked.readWord last s offset = pure (last.readWord s offset) ∧
        (last.readWord s offset).toNat =
          (last.readByte s offset).toNat + 256 * (last.readByte s (offset + 1)).toNat) ∧
      (∀ v : Word,
        let low := BitVec.ofNat 8 (v.toNat % 0x100)
        let high := BitVec.ofNat 8 (v.toNat / 0x100)
        let written := last.writeWord s offset v
        Checked.writeWord last s offset v = pure written ∧
        written = (last.writeByte s offset low).writeByte s (offset + 1) high ∧
        i ≠ j ∧ ∀ a : Address, written.memory.get a =
          if a.toNat = i then low else if a.toNat = j then high else last.memory.get a) ∧
      (offset ≠ 0xFFFF → i ≠ 0xFFFFF →
        last.memory.readWord i = .ok (last.readWord s offset) ∧
        ∀ v : Word, (last.memory.writeWord i v).map (fun memory => { last with memory }) =
          .ok (last.writeWord s offset v)) := by
  intro last
  refine ⟨⟨Checked.applyWrites_eq c writes, c.afterWrites_eq writes⟩, ?_⟩
  intro s offset i j
  have place : (last.address s offset).toNat = i := last.toNat_address s offset
  have next : (last.address s (offset + 1)).toNat = j := last.toNat_address_succ s offset
  refine ⟨⟨?_, Checked.readByte_eq last s offset, c.readByte_afterWrites writes s offset⟩,
    ⟨Checked.readWord_eq last s offset, last.toNat_readWord s offset⟩, ?_, ?_⟩
  · rw [← place]
    exact Checked.translate_eq _ offset
  · intro v low high written
    have apart : i ≠ j := by
      rw [← place, ← next]
      exact fun same => last.address_succ_ne s offset (BitVec.eq_of_toNat_eq same.symm)
    exact ⟨Checked.writeWord_eq last s offset v, last.writeWord_eq_writeByte s offset v, apart,
      last.get_writeWord_linearAddress s offset v⟩
  · intro inner below
    rw [← place] at below ⊢
    exact ⟨last.readWord_of_below_top s inner below, last.writeWord_of_below_top s inner below⟩

/-- The first word lies around the top of memory, the second one around the end of its segment. One
byte of the first is replaced through another segment. Behind the low byte of the second, which is
at 1FFFF, a third segment has put a byte of its own, so the word that the host finds there is the
one of that segment. -/
theorem read_afterWrites_of_aliases :
    let c := ({} : Cpu).afterWrites [.word .cs 0x000F 0x1122,
      .registers { es := 0xF001, ds := 0x1000, ss := 0x1FFF }, .byte .es 0xFFF0 0x77,
      .word .ds 0xFFFF 0xAABB, .byte .ss 0x0010 0xCC]
    c.readByte .cs 0 = 0x77 ∧ c.readWord .ds 0xFFFF = 0xAABB ∧
      c.readWord .ss 0x000F = 0xCCBB ∧ c.memory.readWord 0x1FFFF = .ok 0xCCBB := by
  intro c
  have places := (read_afterWrites {} [.word .cs 0x000F 0x1122,
    .registers { es := 0xF001, ds := 0x1000, ss := 0x1FFF }, .byte .es 0xFFF0 0x77,
    .word .ds 0xFFFF 0xAABB, .byte .ss 0x0010 0xCC]).2
  have byte (s : Segment) (offset : Word) := (places s offset).1.2.2
  have word (s : Segment) (offset : Word) {v : Word}
      (value : (c.readByte s offset).toNat + 256 * (c.readByte s (offset + 1)).toNat = v.toNat) :
      c.readWord s offset = v :=
    BitVec.eq_of_toNat_eq ((places s offset).2.1.2.trans value)
  have aroundEnd : c.readWord .ds 0xFFFF = 0xAABB := by
    apply word
    rw [show c.readByte .ds 0xFFFF = 0xBB from byte .ds 0xFFFF,
      show c.readByte .ds (0xFFFF + 1) = 0xAA from byte .ds (0xFFFF + 1)]
    rfl
  have inOnePiece : c.readWord .ss 0x000F = 0xCCBB := by
    apply word
    rw [show c.readByte .ss 0x000F = 0xBB from byte .ss 0x000F,
      show c.readByte .ss (0x000F + 1) = 0xCC from byte .ss (0x000F + 1)]
    rfl
  have linear := ((places .ss 0x000F).2.2.2 (by decide) (by decide)).1
  exact ⟨byte .cs 0, aroundEnd, inOnePiece, linear.trans (congrArg Except.ok inOnePiece)⟩

end Cpu

end I8086
