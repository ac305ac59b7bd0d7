import I8086.Machine

/-!
# Bytes and words in memory

Consecutive bytes of a store may be read back by their distance from its start. A request at the
number of an address is granted, unless it is for a word at the last one.

The two bytes of a word in a segment never coincide, not even where the word straddles the end of
its segment. So a word read where it was written is the word, and a second word written there hides
the first. A word that does not straddle the end of its segment is the word at its linear address.
-/

namespace I8086

namespace Memory

/-- Stored bytes are found at their distance from the first address, all around memory. -/
theorem get_store (m : Memory) (a b : Address) {data : List Byte}
    (fits : data.length ≤ memorySize) :
    (m.store a data).get b =
      if h : (b - a).toNat < data.length then data[(b - a).toNat] else m.get b := by
  induction data generalizing m a with
  | nil => rfl
  | cons v vs ih =>
      have room : vs.length < memorySize := fits
      rw [store, ih _ _ (Nat.le_of_lt room)]
      by_cases same : b = a
      · -- The first byte lies behind all others, so none of them overwrites it.
        subst same
        have far : ¬(b - (b + 1)).toNat < vs.length := by
          simp only [memorySize] at room
          bv_omega
        rw [dif_neg far, get_set_self]
        simp
      · have step : (b - a).toNat = (b - (a + 1)).toNat + 1 := by
          have : b.toNat ≠ a.toNat := fun h => same (BitVec.eq_of_toNat_eq h)
          bv_omega
        rw [get_set_ne _ _ same]
        simp only [step, List.length_cons, Nat.add_lt_add_iff_right, List.getElem_cons_succ]

/-! ## Requests at linear addresses -/

/-- Bytes that fit behind an address are stored from there on. -/
theorem load_toNat (m : Memory) {a : Address} {data : List Byte}
    (fits : Fits a.toNat data.length) : m.load a.toNat data = .ok (m.store a data) := by
  rw [load, if_pos fits, BitVec.ofNat_toNat, BitVec.setWidth_eq]

/-- No address is too high for a byte. -/
theorem readByte_toNat (m : Memory) (a : Address) : m.readByte a.toNat = .ok (m.get a) := by
  have fits : Fits a.toNat 1 := a.isLt
  rw [readByte, if_pos fits, BitVec.ofNat_toNat, BitVec.setWidth_eq]

theorem writeByte_toNat (m : Memory) (a : Address) (v : Byte) :
    m.writeByte a.toNat v = .ok (m.set a v) :=
  m.load_toNat a.isLt

/-- The word at a linear address, low byte first. -/
def word (m : Memory) (a : Address) : Word := Word.ofBytes (m.get a) (m.get (a + 1))

/-- Stores a word at a linear address, low byte first. -/
def storeWord (m : Memory) (a : Address) (v : Word) : Memory := m.store a [v.low, v.high]

theorem get_storeWord (m : Memory) (a b : Address) (v : Word) :
    (m.storeWord a v).get b =
      if b = a + 1 then v.high else if b = a then v.low else m.get b := by
  simp only [storeWord, store, get_set]

/-- Words at even addresses do not overlap. -/
theorem word_storeWord (m : Memory) {a b : Address} (v : Word) (ha : a.toNat % 2 = 0)
    (hb : b.toNat % 2 = 0) : (m.storeWord a v).word b = if b = a then v else m.word b := by
  have odd : b ≠ a + 1 := by
    rintro rfl
    bv_omega
  simp only [word, get_storeWord, if_neg odd]
  by_cases same : b = a
  · subst same
    rw [if_pos rfl, if_pos rfl, if_pos rfl, Word.ofBytes_low_high]
  · have next : b + 1 ≠ a + 1 := by
      intro equal
      exact same ((BitVec.add_left_inj 1).mp equal)
    have even : b + 1 ≠ a := by
      rintro rfl
      bv_omega
    rw [if_neg next, if_neg even, if_neg same, if_neg same]

/-- A word that lies inside memory is stored at the address with its number. -/
theorem writeWord_of_fits (m : Memory) {k : Nat} (v : Word) (inside : k + 2 ≤ memorySize) :
    m.writeWord k v = .ok (m.storeWord (BitVec.ofNat 20 k) v) := by
  have fits : Fits k [v.low, v.high].length := inside
  rw [writeWord, load, if_pos fits, storeWord]

theorem readWord_of_fits (m : Memory) {k : Nat} (inside : k + 2 ≤ memorySize) :
    m.readWord k = .ok (m.word (BitVec.ofNat 20 k)) := by
  have fits : Fits k 2 := inside
  rw [readWord, if_pos fits, word, BitVec.ofNat_add]
  rfl

/-- Every address but the last one is that of a word. -/
theorem fits_of_below_top {a : Address} (below : a.toNat ≠ 0xFFFFF) : Fits a.toNat 2 := by
  have := a.isLt
  simp only [Fits, memorySize]
  omega

theorem readWord_toNat (m : Memory) {a : Address} (below : a.toNat ≠ 0xFFFFF) :
    m.readWord a.toNat = .ok (m.word a) := by
  rw [m.readWord_of_fits (fits_of_below_top below), BitVec.ofNat_toNat, BitVec.setWidth_eq]

theorem writeWord_toNat (m : Memory) {a : Address} (below : a.toNat ≠ 0xFFFFF) (v : Word) :
    m.writeWord a.toNat v = .ok (m.storeWord a v) :=
  m.load_toNat (fits_of_below_top below)

end Memory

/-! ## Words in segments -/

namespace Cpu

/-- Different offsets in a segment have different addresses. -/
theorem address_inj (c : Cpu) {s : Segment} {x y : Word} :
    c.address s x = c.address s y ↔ x = y := by
  constructor
  · intro same
    have := congrArg BitVec.toNat same
    have hx := x.isLt
    have hy := y.isLt
    have := (c.registers.segment s).isLt
    simp only [address, Address.toNat_translate, memorySize] at *
    exact BitVec.eq_of_toNat_eq (by omega)
  · rintro rfl
    rfl

/-- So the bytes of a word lie apart. -/
theorem address_succ_ne (c : Cpu) (s : Segment) (offset : Word) :
    c.address s (offset + 1) ≠ c.address s offset := by
  intro same
  have := c.address_inj.1 same
  bv_omega

/-- Neighbouring offsets have neighbouring addresses, except around the end of the segment. -/
theorem address_succ (c : Cpu) (s : Segment) {offset : Word} (inner : offset ≠ 0xFFFF) :
    c.address s (offset + 1) = c.address s offset + 1 := by
  have last : offset.toNat ≠ 0xFFFF := fun h => inner (BitVec.eq_of_toNat_eq h)
  apply BitVec.eq_of_toNat_eq
  rw [BitVec.toNat_add, address, address, Address.toNat_translate, Address.toNat_translate]
  simp only [memorySize]
  bv_omega

@[simp] theorem address_writeByte (c : Cpu) (s t : Segment) (offset other : Word) (v : Byte) :
    (c.writeByte s offset v).address t other = c.address t other := rfl

@[simp] theorem address_writeWord (c : Cpu) (s t : Segment) (offset other v : Word) :
    (c.writeWord s offset v).address t other = c.address t other := rfl

/-- The bytes of memory after a word has been written. -/
theorem get_writeWord (c : Cpu) (s : Segment) (offset v : Word) (a : Address) :
    (c.writeWord s offset v).memory.get a =
      if a = c.address s (offset + 1) then v.high
      else if a = c.address s offset then v.low
      else c.memory.get a := by
  simp only [writeWord, writeByte, Memory.get_set]
  rfl

@[simp] theorem readWord_writeWord (c : Cpu) (s : Segment) (offset v : Word) :
    (c.writeWord s offset v).readWord s offset = v := by
  simp only [readWord, readByte, address_writeWord, get_writeWord, if_true,
    (c.address_succ_ne s offset).symm, if_false, Word.ofBytes_low_high]

/-- Of two words written to one place the second remains. -/
@[simp] theorem writeWord_writeWord (c : Cpu) (s : Segment) (offset v w : Word) :
    (c.writeWord s offset v).writeWord s offset w = c.writeWord s offset w := by
  have memory : ((c.writeWord s offset v).writeWord s offset w).memory =
      (c.writeWord s offset w).memory := by
    apply Memory.ext_get
    intro a
    simp only [get_writeWord, address_writeWord]
    split
    · rfl
    · split <;> rfl
  simp only [writeWord, writeByte] at memory ⊢
  rw [memory]

/-- A word inside its segment is read as one at a linear address. -/
theorem readWord_of_inner (c : Cpu) (s : Segment) {offset : Word} (inner : offset ≠ 0xFFFF) :
    c.readWord s offset = c.memory.word (c.address s offset) := by
  rw [readWord, readByte, readByte, c.address_succ s inner, Memory.word]

/-- It is stored as such a word, too. -/
theorem memory_writeWord_of_inner (c : Cpu) (s : Segment) {offset : Word}
    (inner : offset ≠ 0xFFFF) (v : Word) :
    (c.writeWord s offset v).memory = c.memory.storeWord (c.address s offset) v := by
  simp only [writeWord, writeByte, Memory.storeWord, Memory.store, ← c.address_succ s inner]
  rfl

/-- The entries of the vector table lie at the bottom of memory, four bytes each, offset first. -/
theorem readWord_vectorTable (c : Cpu) (vector : Byte) :
    c.memory.readWord (vector.toNat * 4) = .ok (c.readVector vector).2 ∧
      c.memory.readWord (vector.toNat * 4 + 2) = .ok (c.readVector vector).1 := by
  have hv := vector.isLt
  have place : BitVec.ofNat 20 (vector.toNat * 4) = vectorAddress vector := by
    apply BitVec.eq_of_toNat_eq
    rw [vectorAddress, BitVec.toNat_shiftLeft, BitVec.toNat_setWidth, Nat.shiftLeft_eq,
      BitVec.toNat_ofNat]
    omega
  rw [Memory.readWord_of_fits _ (by simp only [memorySize]; omega),
    Memory.readWord_of_fits _ (by simp only [memorySize]; omega), BitVec.ofNat_add, place]
  exact ⟨rfl, rfl⟩

@[simp] theorem sp_push (c : Cpu) (v : Word) : (c.push v).registers.sp = c.registers.sp - 2 := rfl

/-- The word on top of the stack is the one pushed last. -/
@[simp] theorem readWord_push (c : Cpu) (v : Word) :
    (c.push v).readWord .ss (c.registers.sp - 2) = v :=
  readWord_writeWord _ _ _ v

/-- Writing the top of the stack replaces the word pushed last. -/
theorem writeWord_push (c : Cpu) (v w : Word) :
    (c.push v).writeWord .ss (c.registers.sp - 2) w = c.push w :=
  writeWord_writeWord _ _ _ v w

end Cpu

end I8086
