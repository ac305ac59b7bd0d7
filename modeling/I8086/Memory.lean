import I8086.Fault

/-!
# Memory

One mebibyte, addressed in two ways. A linear `Address` has twenty bits and always names a byte:
`get` and `set` are total and obey the laws of a byte store (`get_set_self`, `get_set_ne`).
Requests from outside the machine give an address and a length as plain numbers; they succeed
exactly when the whole range lies inside memory, and a request that fails changes nothing.
-/

namespace I8086

/-- The number of bytes of memory. -/
def memorySize : Nat := 0x100000

/-- A linear address. -/
abbrev Address := BitVec 20

/-- The linear address of `segment:offset`, which wraps at the top of memory. -/
def Address.translate (segment offset : Word) : Address :=
  (segment.setWidth 20 <<< 4) + offset.setWidth 20

theorem Address.toNat_translate (segment offset : Word) :
    (Address.translate segment offset).toNat
      = (16 * segment.toNat + offset.toNat) % memorySize := by
  have hs := segment.isLt
  have ho := offset.isLt
  simp only [Address.translate, memorySize, BitVec.toNat_add, BitVec.toNat_shiftLeft,
    BitVec.toNat_setWidth, Nat.shiftLeft_eq]
  omega

/-- The contents of memory. -/
structure Memory where
  bytes : ByteArray
  size_bytes : bytes.size = memorySize

namespace Memory

/-- The address of a byte lies inside memory. -/
theorem toNat_lt_size (m : Memory) (a : Address) : a.toNat < m.bytes.size := by
  rw [m.size_bytes]
  exact a.isLt

/-- Memory that holds only zeros. -/
def zero : Memory := ⟨⟨Array.replicate memorySize 0⟩, Array.size_replicate⟩

/-- The byte at an address. -/
def get (m : Memory) (a : Address) : Byte := (m.bytes.get a.toNat (m.toNat_lt_size a)).toBitVec

/-- Replaces the byte at an address. -/
def set (m : Memory) (a : Address) (v : Byte) : Memory where
  bytes := m.bytes.set a.toNat (UInt8.ofBitVec v) (m.toNat_lt_size a)
  size_bytes := (Array.size_set (m.toNat_lt_size a)).trans m.size_bytes

@[simp] theorem get_zero (a : Address) : zero.get a = 0 :=
  congrArg UInt8.toBitVec (Array.getElem_replicate _)

@[simp] theorem get_set_self (m : Memory) (a : Address) (v : Byte) : (m.set a v).get a = v :=
  congrArg UInt8.toBitVec (Array.getElem_set_self (m.toNat_lt_size a))

theorem get_set_ne (m : Memory) {a b : Address} (v : Byte) (h : b ≠ a) :
    (m.set a v).get b = m.get b :=
  congrArg UInt8.toBitVec (Array.getElem_set_ne (m.toNat_lt_size a) (m.toNat_lt_size b)
    fun e => h (BitVec.eq_of_toNat_eq e.symm))

theorem get_set (m : Memory) (a b : Address) (v : Byte) :
    (m.set a v).get b = if b = a then v else m.get b := by
  split
  · rename_i h
    rw [h, get_set_self]
  · rename_i h
    exact get_set_ne m v h

/-- Two memories with the same bytes are the same memory. -/
theorem ext_get {m n : Memory} (h : ∀ a, m.get a = n.get a) : m = n := by
  obtain ⟨b, hb⟩ := m
  obtain ⟨c, hc⟩ := n
  have : b = c := by
    refine ByteArray.ext_getElem (hb.trans hc.symm) fun i hi hi' => ?_
    have ha : (BitVec.ofNat 20 i).toNat = i := Nat.mod_eq_of_lt (Nat.lt_of_lt_of_eq hi hb)
    have same (d : ByteArray) {j k : Nat} (e : j = k) (hj : j < d.size) (hk : k < d.size) :
        d.get j hj = d.get k hk := by
      subst e
      rfl
    have hget := UInt8.toBitVec_inj.1 (h (BitVec.ofNat 20 i))
    exact (same b ha _ hi).symm.trans (hget.trans (same c ha _ hi'))
  subst this
  rfl

/-- Whether `len` bytes from `address` on all lie inside memory. -/
def Fits (address len : Nat) : Prop := address + len ≤ memorySize

instance (address len : Nat) : Decidable (Fits address len) := Nat.decLe ..

/-- The byte at a linear address. -/
def readByte (m : Memory) (address : Nat) : Except Fault Byte :=
  if Fits address 1 then .ok (m.get (BitVec.ofNat 20 address)) else .error (.outOfBounds address)

/-- The word at a linear address, low byte first. -/
def readWord (m : Memory) (address : Nat) : Except Fault Word :=
  if Fits address 2 then
    .ok (Word.ofBytes (m.get (BitVec.ofNat 20 address)) (m.get (BitVec.ofNat 20 (address + 1))))
  else .error (.outOfBounds address)

/-- Stores bytes at consecutive addresses, without a check. -/
def store (m : Memory) (a : Address) : List Byte → Memory
  | [] => m
  | v :: vs => (m.set a v).store (a + 1) vs

/-- Copies bytes to a linear address; nothing is written unless all of them fit. -/
def load (m : Memory) (address : Nat) (data : List Byte) : Except Fault Memory :=
  if Fits address data.length then .ok (m.store (BitVec.ofNat 20 address) data)
  else .error (.outOfBounds address)

/-- Writes the byte at a linear address. -/
def writeByte (m : Memory) (address : Nat) (v : Byte) : Except Fault Memory := m.load address [v]

/-- Writes the word at a linear address, low byte first. -/
def writeWord (m : Memory) (address : Nat) (v : Word) : Except Fault Memory :=
  m.load address [v.low, v.high]

/-- The `len` bytes from a linear address on. -/
def slice (m : Memory) (address len : Nat) : Except Fault (List Byte) :=
  if Fits address len then
    .ok ((List.range' address len).map fun i => m.get (BitVec.ofNat 20 i))
  else .error (.outOfBounds address)

end Memory

end I8086
