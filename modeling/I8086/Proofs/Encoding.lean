import I8086.Proofs.Prefix

/-!
# The lengths of instructions

`Encoding.length` tells from the bytes of an instruction how many they are: the opcode, a ModR/M
byte with its displacement where the opcode has one, and immediate data. It is a table over
opcode bytes and has nothing to do with decoding. Two facts tie it to the decoder: a decoded
instruction has that length, and no byte behind it has a part in it.
-/

namespace I8086

namespace Encoding

/-- Whether a ModR/M byte follows the opcode. -/
def hasModRM (opcode : Byte) : Bool :=
  let n := opcode.toNat
  (n < 0x40 && n % 8 < 4) || (0x80 ≤ n && n < 0x90) || (0xC4 ≤ n && n < 0xC8) ||
    (0xD0 ≤ n && n < 0xD4) || (0xD8 ≤ n && n < 0xE0) || n = 0xF6 || n = 0xF7 || 0xFE ≤ n

/-- The length of a ModR/M byte with the displacement that its mode asks for. -/
def modRMLength (b : Byte) : Nat :=
  match b.toNat / 64, b.toNat % 8 with
  | 0, 6 => 3
  | 0, _ => 1
  | 1, _ => 2
  | 2, _ => 3
  | _, _ => 1

/-- The length of the immediate data, for the opcode and the register field behind it: a byte or
a word, an offset in memory, a far pointer, a jump distance, a port or a vector. -/
def immediateLength (opcode : Byte) (reg : Nat) : Nat :=
  let n := opcode.toNat
  if n < 0x40 then (if n % 8 = 4 then 1 else if n % 8 = 5 then 2 else 0)
  else if 0x70 ≤ n ∧ n < 0x80 then 1
  else if 0xA0 ≤ n ∧ n < 0xA4 then 2
  else if 0xB0 ≤ n ∧ n < 0xB8 then 1
  else if 0xB8 ≤ n ∧ n < 0xC0 then 2
  else if n = 0xF6 then (if reg ≤ 1 then 1 else 0)
  else if n = 0xF7 then (if reg ≤ 1 then 2 else 0)
  else if n = 0x9A ∨ n = 0xEA then 4
  else if n = 0x81 ∨ n = 0xA9 ∨ n = 0xC2 ∨ n = 0xCA ∨ n = 0xC7 ∨ n = 0xE8 ∨ n = 0xE9 then 2
  else if n = 0x80 ∨ n = 0x82 ∨ n = 0x83 ∨ n = 0xA8 ∨ n = 0xC6 ∨ n = 0xCD ∨ n = 0xD4 ∨ n = 0xD5 ∨
      (0xE0 ≤ n ∧ n < 0xE8) ∨ n = 0xEB then 1
  else 0

/-- The register field of a ModR/M byte. -/
def regField (b : Byte) : Nat := b.toNat / 8 % 8

/-- The length of the instruction whose opcode is the first byte of the stream. -/
def length (code : Code) : Nat :=
  1 + (if hasModRM (code 0) then modRMLength (code 1) else 0) +
    immediateLength (code 0) (regField (code 1))

end Encoding

/-! ## The layout of opcodes -/

namespace Opcode

/-- Whether a ModR/M byte completes the opcode. -/
def hasModRM : Opcode → Bool
  | alu _ _ _ | aluGroup _ _ | test _ | unaryGroup _ | stepGroup | indirectGroup | shiftGroup _ _
  | mov _ _ | movFromSegment | movToSegment | movImmediateGroup _ | xchg _ | lea | les | lds
  | popGroup | esc => true
  | _ => false

/-- The bytes of immediate data that belong to the opcode, for a register field behind it. -/
def immediateLength (reg : RegisterNumber) : Opcode → Nat
  | aluAccumulator _ w | testAccumulator w | movImmediate w _ | movImmediateGroup w => w.bytes
  | aluGroup .word false => 2
  | aluGroup _ _ => 1
  | unaryGroup w => if reg.val ≤ 1 then w.bytes else 0
  | jumpFar | callFar => 4
  | movAccumulator _ _ | jumpNear | callNear | ret _ true => 2
  | aam | aad | input _ false | output _ false | jumpIf _ _ | loop _ | jcxz | jumpShort | int => 1
  | _ => 0

/-- The bytes that follow the opcode. -/
def operandLength (op : Opcode) (code : Code) : Nat :=
  (if op.hasModRM then 1 + (ModRM.ofByte (code 0)).displacementLength else 0) +
    op.immediateLength (ModRM.ofByte (code 0)).reg

theorem displacementLength_le (m : ModRM) : m.displacementLength ≤ 2 := by
  unfold ModRM.displacementLength
  split
  · split <;> omega
  · omega
  · omega
  · omega

/-- Only far pointers are longer than a word, and no ModR/M byte stands before them. -/
theorem immediateLength_le (op : Opcode) (reg : RegisterNumber) :
    op.immediateLength reg ≤ if op.hasModRM then 2 else 4 := by
  have bytes (w : Width) : w.bytes ≤ 2 := by cases w <;> decide
  have wide (w : Width) : w.bytes ≤ 4 := Nat.le_trans (bytes w) (by decide)
  fun_cases immediateLength reg op <;>
    simp only [hasModRM, Bool.false_eq_true, if_false, if_true, bytes, wide,
      Nat.reduceLeDiff, Nat.le_refl, Nat.zero_le]

/-- No opcode has more than five bytes behind it. -/
theorem operandLength_le (op : Opcode) (code : Code) : op.operandLength code ≤ 5 := by
  have displacement := displacementLength_le (ModRM.ofByte (code 0))
  have immediate := op.immediateLength_le (ModRM.ofByte (code 0)).reg
  unfold operandLength
  split at immediate
  · rename_i modRM
    rw [if_pos modRM]
    omega
  · rename_i plain
    rw [if_neg plain]
    omega

end Opcode

namespace Encoding

/-- The mode is the two upper bits of a ModR/M byte. -/
theorem mode_eq (b : Byte) : b.toNat / 64 = (ModRM.ofByte b).mode.val := by
  have small := b.isLt
  show b.toNat / 64 = (b.extractLsb' 6 2).toNat
  rw [BitVec.extractLsb'_toNat, Nat.shiftRight_eq_div_pow]
  omega

theorem regField_eq (b : Byte) : regField b = (ModRM.ofByte b).reg.val := by
  show b.toNat / 8 % 8 = (b.extractLsb' 3 3).toNat
  rw [BitVec.extractLsb'_toNat, Nat.shiftRight_eq_div_pow]

/-- The place is the three lower ones. -/
theorem place_eq (b : Byte) : b.toNat % 8 = (ModRM.ofByte b).rm.val := by
  show b.toNat % 8 = (b.extractLsb' 0 3).toNat
  rw [BitVec.extractLsb'_toNat, Nat.shiftRight_zero]

theorem modRMLength_eq (b : Byte) : modRMLength b = 1 + (ModRM.ofByte b).displacementLength := by
  rw [modRMLength, ModRM.displacementLength, mode_eq, place_eq]
  generalize (ModRM.ofByte b).mode = mode
  generalize (ModRM.ofByte b).rm = place
  revert mode place
  decide

/-- The table over bytes agrees with the layout of the opcodes that they mean. -/
theorem layout_of_ofByte? (b : Byte) (reg : RegisterNumber) :
    (Opcode.ofByte? b).all fun op =>
      hasModRM b = op.hasModRM ∧ immediateLength b reg.val = op.immediateLength reg := by
  revert b reg
  decide +kernel

/-- The length of an instruction is that of its opcode and of what follows. -/
theorem length_eq {code : Code} {op : Opcode} (decoded : Opcode.ofByte? (code 0) = some op) :
    length code = 1 + op.operandLength (code.drop 1) := by
  have layout := layout_of_ofByte? (code 0) (ModRM.ofByte (code 1)).reg
  rw [decoded, Option.all_some, decide_eq_true_eq] at layout
  obtain ⟨modRM, immediate⟩ := layout
  simp only [length, Opcode.operandLength, Code.drop_apply, modRM, regField_eq, immediate,
    modRMLength_eq, Nat.add_assoc, Nat.add_zero]

end Encoding

/-! ## Decoding takes the bytes of the instruction -/

namespace Instruction

theorem decode?_of_hasModRM {op : Opcode} (modRM : op.hasModRM = true) (p : Prefixes)
    (code : Code) :
    decode? op p code =
      decodeModRM? op p (ModRM.ofByte (code 0)).reg
        ((ModRM.ofByte (code 0)).place p.segment (code 1) (code 2)) code
        (1 + (ModRM.ofByte (code 0)).displacementLength) := by
  cases op <;> first | rfl | cases modRM

/-- The instructions that a ModR/M byte completes end behind their immediate data. -/
theorem snd_of_decodeModRM? {op : Opcode} {p : Prefixes} {reg : RegisterNumber} {place : Place}
    {code : Code} {next : Nat} {i : Instruction} {length : Nat}
    (decoded : decodeModRM? op p reg place code next = some (i, length)) :
    op.hasModRM = true ∧ length = next + op.immediateLength reg := by
  fun_cases decodeModRM? op p reg place code next <;>
    simp_all [decodeModRM?, Opcode.hasModRM, Opcode.immediateLength]
  case case22 | case23 =>
      obtain ⟨s, _, _, rfl⟩ := decoded
      rfl

/-- A decoded instruction takes the bytes that the layout of its opcode says. -/
theorem snd_of_decode? {op : Opcode} {p : Prefixes} {code : Code} {i : Instruction} {length : Nat}
    (decoded : decode? op p code = some (i, length)) : length = op.operandLength code := by
  cases modRM : op.hasModRM with
  | true =>
      rw [decode?_of_hasModRM modRM] at decoded
      rw [(snd_of_decodeModRM? decoded).2, Opcode.operandLength, if_pos modRM]
  | false =>
      rw [Opcode.operandLength, modRM, if_neg Bool.false_ne_true, Nat.zero_add]
      cases op with
      | movAccumulator _ taken | input _ taken | output _ taken | ret _ taken =>
          cases taken <;> cases decoded <;> rfl
      | segmentOverride | repeatString | lock => cases decoded
      | _ => first
        | exact absurd modRM (show true ≠ false by decide)
        | cases decoded; rfl

end Instruction

/-! ## Jump distances -/

namespace Encoding

/-- The distance that a relative jump or call gives behind its opcode, as a signed byte or as a
word. -/
def distance? (code : Code) : Option Word :=
  let n := (code 0).toNat
  if 0x70 ≤ n ∧ n < 0x80 ∨ 0xE0 ≤ n ∧ n < 0xE4 ∨ n = 0xEB then some (code 1).signExtend
  else if n = 0xE8 ∨ n = 0xE9 then some (code.word 1)
  else none

end Encoding

/-- The width of the jump distance behind an opcode. -/
def Opcode.distanceWidth : Opcode → Option Width
  | jumpIf _ _ | loop _ | jcxz | jumpShort => some .byte
  | jumpNear | callNear => some .word
  | _ => none

/-- The distance by which an instruction jumps if it does. -/
def Instruction.distance? : Instruction → Option Word
  | jumpIf _ _ d | loop _ d | jcxz d | jump d | call d => some d
  | _ => none

/-- The distances that the bytes have are those that their opcodes call for. -/
theorem Encoding.distance?_eq {code : Code} {op : Opcode}
    (decoded : Opcode.ofByte? (code 0) = some op) :
    distance? code = op.distanceWidth.map fun
      | .byte => (code 1).signExtend
      | .word => code.word 1 := by
  have widths : ∀ b : Byte, (Opcode.ofByte? b).all fun op =>
      (if 0x70 ≤ b.toNat ∧ b.toNat < 0x80 ∨ 0xE0 ≤ b.toNat ∧ b.toNat < 0xE4 ∨ b.toNat = 0xEB then
          some Width.byte
        else if b.toNat = 0xE8 ∨ b.toNat = 0xE9 then some Width.word else none) =
        op.distanceWidth := by
    decide +kernel
  have width := widths (code 0)
  rw [decoded, Option.all_some, decide_eq_true_eq] at width
  rw [← width, distance?]
  split
  · rfl
  · split <;> rfl

theorem Opcode.distanceWidth_of_hasModRM {op : Opcode} (modRM : op.hasModRM = true) :
    op.distanceWidth = none := by
  cases op <;> first | rfl | cases modRM

namespace Instruction

theorem distance?_ofUnary (w : Width) (p : Prefixes) (target : Place) (v : w.Value)
    (reg : RegisterNumber) : (ofUnary w p target v reg).distance? = none := by
  fun_cases ofUnary w p target v reg <;> rfl

/-- No relative jump has a ModR/M byte. -/
theorem distance?_of_decodeModRM? {op : Opcode} {p : Prefixes} {reg : RegisterNumber}
    {place : Place} {code : Code} {next : Nat} {i : Instruction} {length : Nat}
    (decoded : decodeModRM? op p reg place code next = some (i, length)) :
    i.distance? = none := by
  fun_cases decodeModRM? op p reg place code next <;>
    simp_all only [decodeModRM?, Option.some.injEq, Prod.mk.injEq, reduceCtorEq,
      Option.map_eq_some_iff]
  case case22 | case23 =>
      obtain ⟨s, _, rfl, _⟩ := decoded
      rfl
  all_goals obtain ⟨rfl, _⟩ := decoded
  case case7 => exact distance?_ofUnary _ p place _ reg
  all_goals rfl

/-- The distance in a decoded instruction is the one that follows its opcode. -/
theorem distance?_of_decode? {op : Opcode} {p : Prefixes} {code : Code} {i : Instruction}
    {length : Nat} (decoded : decode? op p code = some (i, length)) :
    i.distance? = op.distanceWidth.map fun
      | .byte => (code 0).signExtend
      | .word => code.word 0 := by
  cases modRM : op.hasModRM with
  | true =>
      rw [decode?_of_hasModRM modRM] at decoded
      rw [distance?_of_decodeModRM? decoded, Opcode.distanceWidth_of_hasModRM modRM,
        Option.map_none]
  | false =>
      cases op with
      | movAccumulator _ taken | input _ taken | output _ taken | ret _ taken =>
          cases taken <;> cases decoded <;> rfl
      | segmentOverride | repeatString | lock => cases decoded
      | _ => first
        | exact absurd modRM (show true ≠ false by decide)
        | cases decoded; rfl

end Instruction

/-! ## Decoding reads no further -/

namespace Code

/-- The streams begin with the same bytes, so many of them at least. -/
def Agree (n : Nat) (code code' : Code) : Prop := ∀ i < n, code i = code' i

variable {code code' : Code} {m n k : Nat}

theorem Agree.mono (agree : Agree n code code') (h : m ≤ n) : Agree m code code' :=
  fun i hi => agree i (Nat.lt_of_lt_of_le hi h)

theorem Agree.drop (agree : Agree (k + n) code code') : Agree n (code.drop k) (code'.drop k) :=
  fun i hi => agree (k + i) (Nat.add_lt_add_left hi k)

theorem Agree.word (agree : Agree n code code') (h : k + 2 ≤ n) : code.word k = code'.word k := by
  rw [Code.word, Code.word, agree k (by omega), agree (k + 1) (by omega)]

theorem Agree.value (agree : Agree n code code') {w : Width} (h : k + w.bytes ≤ n) :
    code.value w k = code'.value w k := by
  cases w with
  | byte => exact agree k h
  | word => exact agree.word h

end Code

/-- Only the displacement has a part in the place that a ModR/M byte names. -/
theorem ModRM.place_congr (m : ModRM) (override : Option Segment) {a a' b b' : Byte}
    (first : 1 ≤ m.displacementLength → a = a') (second : 2 ≤ m.displacementLength → b = b') :
    m.place override a b = m.place override a' b' := by
  have displacement : m.displacement a b = m.displacement a' b' := by
    rcases length : m.displacementLength with _ | _ | n
    · simp only [displacement, length]
    · simp only [displacement, length, first (Nat.le_of_eq length.symm)]
    · simp only [displacement, length, first (by omega), second (by omega)]
  simp only [place, displacement]

namespace Instruction

/-- The immediate value of a unary operation matters only where it has one. -/
theorem ofUnary_congr (w : Width) (p : Prefixes) (target : Place) {v v' : w.Value}
    {reg : RegisterNumber} (same : reg.val ≤ 1 → v = v') :
    ofUnary w p target v reg = ofUnary w p target v' reg := by
  by_cases taken : reg.val ≤ 1
  · rw [same taken]
  · match reg with
    | 0 | 1 => exact absurd (by decide) taken
    | 2 | 3 | 4 | 5 | 6 | 7 => rfl

theorem decodeModRM?_congr {op : Opcode} (p : Prefixes) {reg : RegisterNumber} (place : Place)
    {code code' : Code} {next : Nat}
    (agree : Code.Agree (next + op.immediateLength reg) code code') :
    decodeModRM? op p reg place code next = decodeModRM? op p reg place code' next := by
  cases op with
  | aluGroup w signExtended =>
      cases w with
      | byte => simp only [decodeModRM?, agree next (Nat.lt_succ_self _)]
      | word =>
          cases signExtended with
          | true => simp only [decodeModRM?, agree next (Nat.lt_succ_self _)]
          | false => simp only [decodeModRM?, agree.word (Nat.le_refl _)]
  | unaryGroup w =>
      have operation : ofUnary w p place (code.value w next) reg =
          ofUnary w p place (code'.value w next) reg := by
        refine ofUnary_congr w p place fun taken => agree.value (Nat.le_of_eq ?_)
        rw [Opcode.immediateLength, if_pos taken]
      simp only [decodeModRM?, operation]
  | movImmediateGroup w => simp only [decodeModRM?, agree.value (Nat.le_refl (next + w.bytes))]
  | alu _ _ toRegister | mov _ toRegister => cases toRegister <;> rfl
  | _ => rfl

/-- Streams that agree on the bytes of an instruction decode to the same, whatever follows; and
also if these bytes are no instruction. -/
theorem decode?_congr {op : Opcode} (p : Prefixes) {code code' : Code}
    (agree : Code.Agree (op.operandLength code) code code') :
    decode? op p code = decode? op p code' := by
  unfold Opcode.operandLength at agree
  cases modRM : op.hasModRM with
  | true =>
      rw [modRM, if_pos rfl] at agree
      have byte : code 0 = code' 0 := agree 0 (by omega)
      have place : (ModRM.ofByte (code' 0)).place p.segment (code 1) (code 2) =
          (ModRM.ofByte (code' 0)).place p.segment (code' 1) (code' 2) := by
        rw [byte] at agree
        exact ModRM.place_congr _ _ (fun h => agree 1 (by omega)) (fun h => agree 2 (by omega))
      rw [decode?_of_hasModRM modRM, decode?_of_hasModRM modRM, decodeModRM?_congr p _ agree, byte,
        place]
  | false =>
      rw [modRM, if_neg Bool.false_ne_true, Nat.zero_add] at agree
      cases op with
      | aluAccumulator op w | testAccumulator w | movImmediate w n =>
          simp only [decode?, agree.value (Nat.le_of_eq (Nat.zero_add w.bytes))]
      | aam | aad | jumpIf | loop | jcxz | jumpShort | int =>
          simp only [decode?, agree 0 Nat.one_pos]
      | input _ fromDx | output _ fromDx =>
          cases fromDx with
          | true => rfl
          | false => simp only [decode?, agree 0 Nat.one_pos]
      | movAccumulator _ taken =>
          cases taken <;> simp only [decode?, agree.word (Nat.le_refl 2)]
      | ret _ releasing =>
          cases releasing with
          | true => simp only [decode?, agree.word (Nat.le_refl 2)]
          | false => rfl
      | jumpNear | callNear => simp only [decode?, agree.word (Nat.le_refl 2)]
      | jumpFar | callFar =>
          simp only [decode?, agree.word (show 0 + 2 ≤ 4 by decide),
            agree.word (show 2 + 2 ≤ 4 by decide)]
      | _ => first
        | exact absurd modRM (show true ≠ false by decide)
        | rfl

end Instruction

end I8086
