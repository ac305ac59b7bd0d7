/-!
# Bytes, words and operand widths

The machine computes on bytes and on 16-bit words. Both are bit vectors, so addition and
subtraction wrap and comparisons are unsigned unless a signed one is named. Most instructions
come in a byte and a word form; `Width` names the form and `Value w` is the type of its operands.
-/

namespace I8086

/-- Eight bits: what one memory cell holds. -/
abbrev Byte := BitVec 8

/-- Sixteen bits: registers, segment offsets and word operands. -/
abbrev Word := BitVec 16

namespace Word

/-- Bits 0-7. -/
def low (w : Word) : Byte := w.setWidth 8

/-- Bits 8-15. -/
def high (w : Word) : Byte := w.extractLsb' 8 8

/-- The word with the given halves; memory keeps the low half first. -/
def ofBytes (low high : Byte) : Word := high ++ low

@[simp] theorem low_ofBytes (l h : Byte) : low (ofBytes l h) = l :=
  BitVec.setWidth_append_eq_right

@[simp] theorem high_ofBytes (l h : Byte) : high (ofBytes l h) = h :=
  BitVec.extractLsb'_append_eq_left

@[simp] theorem ofBytes_low_high (w : Word) : ofBytes w.low w.high = w := by
  apply BitVec.eq_of_getLsbD_eq
  intro i hi
  simp only [ofBytes, low, high, BitVec.getLsbD_append, BitVec.getLsbD_setWidth,
    BitVec.getLsbD_extractLsb']
  by_cases h : i < 8
  · simp [h]
  · have : 8 + (i - 8) = i := by omega
    simp [h, this]
    omega

theorem toNat_ofBytes (l h : Byte) : (ofBytes l h).toNat = h.toNat * 256 + l.toNat := by
  have := l.isLt
  rw [ofBytes, BitVec.toNat_append, Nat.shiftLeft_eq, Nat.mul_comm]
  rw [← Nat.two_pow_add_eq_or_of_lt this]

end Word

/-- A byte read as a two's complement number and widened to a word. -/
def Byte.signExtend (b : Byte) : Word := BitVec.signExtend 16 b

/-- The byte and the word form of an instruction. -/
inductive Width where
  | byte
  | word
deriving DecidableEq

namespace Width

/-- Operand size in bits. -/
abbrev bits : Width → Nat
  | byte => 8
  | word => 16

/-- Operand size in bytes. -/
def bytes : Width → Nat
  | byte => 1
  | word => 2

/-- Operands of this width. -/
abbrev Value (w : Width) := BitVec w.bits

/-- Bit 0 of most opcodes selects the word form. -/
def ofBit : Bool → Width
  | false => byte
  | true => word

end Width

end I8086
