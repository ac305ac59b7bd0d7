import I8086.Proofs.Encoding

/-!
# Where an operand lies

A ModR/M byte names a register or an offset in a segment. `Encoding.operandOffset` writes the offset
down as a number, the sum of the address registers and the displacement before it is reduced, and
`Encoding.operandSegment` the segment, both by the fields of the byte. One of the twenty-four forms
in memory is the exception: a word stands alone in place of `[BP]`. Its length, its sum and its
segment all differ from those of its neighbours.
-/

namespace I8086

namespace Encoding

/-- The address registers that the place field of a ModR/M byte adds up. -/
def addressSum (r : Registers) (place : Nat) : Nat :=
  match place with
  | 0 => r.bx.toNat + r.si.toNat
  | 1 => r.bx.toNat + r.di.toNat
  | 2 => r.bp.toNat + r.si.toNat
  | 3 => r.bp.toNat + r.di.toNat
  | 4 => r.si.toNat
  | 5 => r.di.toNat
  | 6 => r.bp.toNat
  | _ => r.bx.toNat

/-- The displacement that the mode asks for: none, a signed byte, or a word, low byte first. -/
def displacement (mode : Nat) (first second : Byte) : Int :=
  if mode = 0 then 0
  else if mode = 1 then first.toInt
  else 256 * second.toNat + first.toNat

/-- The offset of an operand in memory, not yet reduced to sixteen bits. -/
def operandOffset (r : Registers) (mode place : Nat) (first second : Byte) : Int :=
  if mode = 0 ∧ place = 6 then 256 * second.toNat + first.toNat
  else addressSum r place + displacement mode first second

/-- The segment of an operand in memory. -/
def operandSegment (override : Option Segment) (mode place : Nat) : Segment :=
  override.getD (if place = 2 ∨ place = 3 ∨ place = 6 ∧ mode ≠ 0 then .ss else .ds)

end Encoding

/-! ## Offsets -/

theorem AddressBase.value_ofNumber (r : Registers) (n : Fin 8) :
    (ofNumber n).value r = BitVec.ofInt 16 (Encoding.addressSum r n) := by
  have single (v : Word) : v = BitVec.ofInt 16 v.toNat := by
    rw [BitVec.ofInt_natCast, BitVec.ofNat_toNat, BitVec.setWidth_eq]
  have pair (v w : Word) : v + w = BitVec.ofInt 16 ((v.toNat + w.toNat : Nat) : Int) := by
    rw [Int.natCast_add, BitVec.ofInt_add, ← single v, ← single w]
  match n with
  | 0 => exact pair r.bx r.si
  | 1 => exact pair r.bx r.di
  | 2 => exact pair r.bp r.si
  | 3 => exact pair r.bp r.di
  | 4 => exact single r.si
  | 5 => exact single r.di
  | 6 => exact single r.bp
  | 7 => exact single r.bx

theorem Word.ofBytes_eq (l h : Byte) : ofBytes l h = BitVec.ofInt 16 (256 * h.toNat + l.toNat) := by
  have := (ofBytes l h).isLt
  apply BitVec.eq_of_toNat_eq
  rw [BitVec.toNat_ofInt, toNat_ofBytes] at *
  omega

namespace ModRM

variable (m : ModRM) (override : Option Segment) (r : Registers) (first second : Byte)

theorem defaultSegment_eq :
    override.getD m.defaultSegment = Encoding.operandSegment override m.mode m.rm := by
  have table : ∀ (mode : Fin 4) (place : Fin 8), defaultSegment ⟨mode, 0, place⟩ =
      if place.val = 2 ∨ place.val = 3 ∨ place.val = 6 ∧ mode.val ≠ 0 then .ss else .ds := by
    decide
  exact congrArg override.getD (table m.mode m.rm)

theorem isDirect_iff : m.isDirect = true ↔ m.mode.val = 0 ∧ m.rm.val = 6 := by
  rw [isDirect, Bool.and_eq_true, beq_iff_eq, beq_iff_eq, Fin.ext_iff]
  rfl

/-- The word that stands alone is a displacement, too. -/
theorem displacement_eq (memory : m.mode ≠ 3) :
    m.displacement first second =
      if m.isDirect then Word.ofBytes first second
      else BitVec.ofInt 16 (Encoding.displacement m.mode first second) := by
  obtain ⟨mode, reg, place⟩ := m
  match mode with
  | 0 =>
      by_cases six : place.val = 6
      · rw [if_pos ((isDirect_iff _).mpr ⟨rfl, six⟩), displacement, displacementLength, if_pos six]
        rfl
      · rw [if_neg (fun direct => six ((isDirect_iff _).mp direct).2), displacement,
          displacementLength, if_neg six]
        rfl
  | 1 => rfl
  | 2 => exact Word.ofBytes_eq first second
  | 3 => exact absurd rfl memory

/-- The register part of the address that a mode other than 3 names. -/
def base (m : ModRM) : AddressBase := if m.isDirect then .direct else .ofNumber m.rm

/-- Mode 3 names a register. -/
theorem place_of_register (register : m.mode = 3) :
    m.place override first second = .register m.rm :=
  if_pos (decide_eq_true register)

/-- The other modes name a memory location, of which a prefix chooses the segment. -/
theorem place_of_memory (memory : m.mode ≠ 3) :
    m.place override first second =
      .memory ⟨override.getD m.defaultSegment, m.base, m.displacement first second⟩ :=
  if_neg fun register => memory (of_decide_eq_true register)

/-- The location is the sum of what the mode asks for. -/
theorem resolve_place_of_memory (memory : m.mode ≠ 3) :
    (m.place override first second).resolve r =
      .memory (Encoding.operandSegment override m.mode m.rm)
        (BitVec.ofInt 16 (Encoding.operandOffset r m.mode m.rm first second)) := by
  rw [place_of_memory _ _ _ _ memory, defaultSegment_eq, m.displacement_eq first second memory,
    base]
  by_cases direct : m.isDirect = true
  · rw [if_pos direct, if_pos direct, Encoding.operandOffset, if_pos (m.isDirect_iff.mp direct),
      ← Word.ofBytes_eq]
    exact congrArg (Operand.memory _) (BitVec.zero_add _)
  · rw [if_neg direct, if_neg direct, Encoding.operandOffset, if_neg (mt m.isDirect_iff.mpr direct),
      BitVec.ofInt_add, ← AddressBase.value_ofNumber]
    rfl

/-- A displacement of -2 from BP wraps at the bottom of the stack segment. -/
example : ((ModRM.ofByte 0x46).place none 0xFE 0x00).resolve { bp := 1 } = .memory .ss 0xFFFF := by
  decide

end ModRM

/-! ## Fetching an operand -/

namespace Cpu

variable (c : Cpu) (override : Option Segment)

/-- The instruction stream at `CS:IP`. -/
def stream (c : Cpu) : Code := fun k => c.readByte .cs (c.registers.ip + BitVec.ofNat 16 k)

/-- The place that the ModR/M byte at `CS:IP` names. -/
def modRMPlace (c : Cpu) (override : Option Segment) : Place :=
  (ModRM.ofByte (c.stream 0)).place override (c.stream 1) (c.stream 2)

theorem fetchModRM_eq :
    c.fetchModRM override =
      (ModRM.ofByte (c.stream 0), (c.modRMPlace override).resolve c.registers,
        { c with
          registers.ip :=
            c.registers.ip + BitVec.ofNat 16 (Encoding.modRMLength (c.stream 0)) }) := by
  rw [Encoding.modRMLength_eq, BitVec.ofNat_add]
  rfl

/-- Only the bytes that are fetched have a part in the place. -/
theorem modRMPlace_congr {c' : Cpu}
    (agree : Code.Agree (Encoding.modRMLength (c.stream 0)) c'.stream c.stream) :
    c'.stream 0 = c.stream 0 ∧ c'.modRMPlace override = c.modRMPlace override := by
  have length := Encoding.modRMLength_eq (c.stream 0)
  have byte : c'.stream 0 = c.stream 0 := agree 0 (by omega)
  refine ⟨byte, ?_⟩
  rw [modRMPlace, modRMPlace, byte]
  exact ModRM.place_congr _ _ (fun one => agree 1 (by omega)) (fun two => agree 2 (by omega))

/-- Every ModR/M byte and what it denotes. The byte at `CS:IP` is read with the two behind it, at
offsets that wrap. Mode 3 names a register by its number. Any other mode names the segment and the
offset that the tables give, the offset reduced to sixteen bits. IP moves past the byte and the
displacement that its mode asks for, nothing else changes, and bytes that IP does not move past have
no part in the operand. Every instruction that the byte completes has this operand, under prefixes
with this override. -/
theorem fetchModRM_operand :
    let byte := c.stream
    let mode := (byte 0).toNat / 64
    let place := (byte 0).toNat % 8
    let length := Encoding.modRMLength (byte 0)
    ∃ (m : ModRM) (operand : Operand),
      c.fetchModRM override =
        (m, operand, { c with registers.ip := c.registers.ip + BitVec.ofNat 16 length }) ∧
      m.mode.val = mode ∧ m.reg.val = Encoding.regField (byte 0) ∧ m.rm.val = place ∧
      (mode = 3 → operand = .register m.rm) ∧
      (mode ≠ 3 → ∃ offset : Word,
        operand = .memory (Encoding.operandSegment override mode place) offset ∧
        (offset.toNat : Int) =
          Encoding.operandOffset c.registers mode place (byte 1) (byte 2) % 0x10000) ∧
      (∀ c' : Cpu, c'.registers = c.registers → Code.Agree length c'.stream byte →
        (c'.fetchModRM override).1 = m ∧ (c'.fetchModRM override).2.1 = operand) ∧
      ∃ p : Place, p.resolve c.registers = operand ∧
        ∀ (op : Opcode) (prefixes : Prefixes), op.hasModRM = true → prefixes.segment = override →
          Instruction.decode? op prefixes byte =
            Instruction.decodeModRM? op prefixes m.reg p byte length := by
  intro byte mode place length
  have modeField : (ModRM.ofByte (byte 0)).mode.val = mode := (Encoding.mode_eq _).symm
  have placeField : (ModRM.ofByte (byte 0)).rm.val = place := (Encoding.place_eq _).symm
  refine ⟨ModRM.ofByte (byte 0), (c.modRMPlace override).resolve c.registers,
    c.fetchModRM_eq override, modeField, (Encoding.regField_eq _).symm, placeField, ?_, ?_, ?_,
    c.modRMPlace override, rfl, ?_⟩
  · intro three
    rw [modRMPlace, ModRM.place_of_register _ _ _ _ (Fin.ext (modeField.trans three))]
    rfl
  · intro memory
    have resolved := ModRM.resolve_place_of_memory (ModRM.ofByte (byte 0)) override c.registers
      (byte 1) (byte 2) (fun three => memory (modeField.symm.trans (congrArg Fin.val three)))
    rw [modeField, placeField] at resolved
    refine ⟨_, resolved, ?_⟩
    rw [BitVec.toNat_ofInt]
    omega
  · intro c' registers agree
    obtain ⟨same, samePlace⟩ := c.modRMPlace_congr override agree
    rw [fetchModRM_eq, registers, same, samePlace]
    exact ⟨rfl, rfl⟩
  · intro op prefixes modRM overridden
    rw [Instruction.decode?_of_hasModRM modRM, overridden, ← Encoding.modRMLength_eq]
    rfl

end Cpu

end I8086
