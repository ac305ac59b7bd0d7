import I8086.Proofs.Rejection

/-!
# Undefined encodings

An opcode byte may mean nothing, and several opcodes ask for a ModR/M byte with certain register
fields, or with a place in memory. `Encoding.Undefined` collects all of this in one table over the
first two bytes. Decoding finds no instruction exactly there (`Code.decode?_eq_none_iff`), whatever
stands before and behind these bytes, and so a step rejects exactly the encodings in the table.
-/

namespace I8086

namespace Encoding

/-- The opcode byte is no instruction with a ModR/M byte behind it that has this register field and
whose place is a register or is not. -/
def UndefinedForm (opcode : Byte) (reg : Nat) (register : Bool) : Prop :=
  let n := opcode.toNat
  n ∈ [0x0F, 0xC0, 0xC1, 0xC8, 0xC9, 0xD6, 0xF1] ∨
    0x60 ≤ n ∧ n ≤ 0x6F ∨
    n = 0xFE ∧ 2 ≤ reg ∨
    n = 0xFF ∧ (reg = 7 ∨ (reg = 3 ∨ reg = 5) ∧ register = true) ∨
    n ∈ [0x8D, 0xC4, 0xC5] ∧ register = true ∨
    n ∈ [0x8F, 0xC6, 0xC7] ∧ reg ≠ 0 ∨
    n ∈ [0x8C, 0x8E] ∧ 4 ≤ reg

instance (opcode : Byte) (reg : Nat) (register : Bool) :
    Decidable (UndefinedForm opcode reg register) :=
  inferInstanceAs (Decidable (_ ∨ _))

/-- The stream begins with no instruction. A ModR/M byte of C0 or more has a register for its
place. -/
def Undefined (code : Code) : Prop :=
  UndefinedForm (code 0) (regField (code 1)) (decide (0xC0 ≤ (code 1).toNat))

instance (code : Code) : Decidable (Undefined code) :=
  inferInstanceAs (Decidable (UndefinedForm _ _ _))

theorem isRegister_eq (b : Byte) : decide (0xC0 ≤ b.toNat) = (ModRM.ofByte b).isRegister := by
  revert b
  decide +kernel

end Encoding

namespace Opcode

/-- Whether a ModR/M byte with this register field completes the opcode to an instruction, if its
place is a register or is not. Opcodes that have none are instructions by themselves, prefixes
are not. -/
def admits (reg : RegisterNumber) (register : Bool) : Opcode → Bool
  | segmentOverride _ | repeatString _ | lock => false
  | stepGroup => reg.val ≤ 1
  | indirectGroup => reg.val != 7 && !(register && (reg.val == 3 || reg.val == 5))
  | movFromSegment | movToSegment => reg.val ≤ 3
  | movImmediateGroup _ | popGroup => reg.val == 0
  | lea | les | lds => !register
  | _ => true

/-- The table over bytes agrees with what the opcodes admit. -/
theorem any_admits_iff {b : Byte} (plain : ¬b.IsPrefix) (reg : RegisterNumber) (register : Bool) :
    (Opcode.ofByte? b).any (admits reg register) = true ↔
      ¬Encoding.UndefinedForm b reg.val register := by
  have all : ∀ (b : Byte) (reg : RegisterNumber) (register : Bool), ¬b.IsPrefix →
      ((Opcode.ofByte? b).any (admits reg register) = true ↔
        ¬Encoding.UndefinedForm b reg.val register) := by
    decide +kernel
  exact all b reg register plain

end Opcode

namespace Instruction

/-- A register field selects an instruction for a place if the opcode admits them. -/
theorem isSome_decodeModRM? {op : Opcode} (modRM : op.hasModRM = true) (p : Prefixes)
    (reg : RegisterNumber) (place : Place) (code : Code) (next : Nat) :
    (decodeModRM? op p reg place code next).isSome =
      op.admits reg (match place with | .register _ => true | .memory _ => false) := by
  cases op with
  | stepGroup | movFromSegment | movToSegment | movImmediateGroup w | popGroup =>
      match reg with
      | 0 | 1 | 2 | 3 | 4 | 5 | 6 | 7 => rfl
  | indirectGroup =>
      cases place <;>
        match reg with
        | 0 | 1 | 2 | 3 | 4 | 5 | 6 | 7 => rfl
  | lea | les | lds => cases place <;> rfl
  | alu _ _ toRegister | mov _ toRegister => cases toRegister <;> rfl
  | aluGroup w signExtended => cases w <;> cases signExtended <;> rfl
  | test | unaryGroup | shiftGroup | xchg | esc => rfl
  | _ => cases modRM

/-- Whether there is an instruction depends on the opcode and on the ModR/M byte alone. -/
theorem isSome_decode? (op : Opcode) (p : Prefixes) (code : Code) :
    (decode? op p code).isSome =
      op.admits (ModRM.ofByte (code 0)).reg (ModRM.ofByte (code 0)).isRegister := by
  cases modRM : op.hasModRM with
  | true =>
      rw [decode?_of_hasModRM modRM, isSome_decodeModRM? modRM]
      generalize ModRM.ofByte (code 0) = m
      congr 1
      cases register : m.isRegister <;> simp [ModRM.place, register]
  | false =>
      cases op with
      | movAccumulator _ taken | input _ taken | output _ taken | ret _ taken =>
          cases taken <;> rfl
      | _ => first
        | exact absurd modRM (show true ≠ false by decide)
        | rfl

end Instruction

/-- Decoding finds no instruction exactly in the encodings of the table. -/
theorem Code.decode?_eq_none_iff {code : Code} (plain : ¬(code 0).IsPrefix) (p : Prefixes) :
    code.decode? p = none ↔ Encoding.Undefined code := by
  have table := Opcode.any_admits_iff plain (ModRM.ofByte (code 1)).reg
    (ModRM.ofByte (code 1)).isRegister
  rw [← Encoding.regField_eq, ← Encoding.isRegister_eq] at table
  unfold decode?
  rw [Option.map_eq_none_iff]
  cases opcode : Opcode.ofByte? (code 0) with
  | none =>
      rw [opcode] at table
      constructor
      · intro _
        exact Classical.byContradiction fun defined => nomatch table.mpr defined
      · intro _
        rfl
  | some op =>
      have decoded := Instruction.isSome_decode? op p (code.drop 1)
      rw [Code.drop_apply, ← Encoding.isRegister_eq] at decoded
      rw [opcode, Option.any_some] at table
      rw [Option.bind_some, ← Option.not_isSome_iff_eq_none, decoded]
      exact (not_congr table).trans Decidable.not_not

namespace Runtime

variable {World : Type} {r : Runtime World} {bytes : List Byte}

/-- No handler reports an illegal instruction. -/
def LegalHandlers (r : Runtime World) : Prop :=
  ∀ vector handler, r.bus.target? vector = some handler → ∀ cpu world opcode cs ip,
    (handler.serve vector cpu world).service ≠ .error (.illegalInstruction opcode cs ip)

/-- An undefined encoding behind fewer prefixes than a step may read is given up by the handler of
its opcode. -/
theorem step_of_undefined (running : r.cpu.halted = false) (holds : r.code.Holds bytes)
    (prefixes : ∀ b ∈ bytes, b.IsPrefix) (stop : ¬(r.code bytes.length).IsPrefix)
    (short : bytes.length < maxPrefixRun)
    (undefined : Encoding.Undefined (r.code.drop bytes.length)) :
    r.step.1 =
      .error (.illegalInstruction (r.code bytes.length) r.cpu.registers.cs r.instructionStart) := by
  obtain ⟨room, rest⟩ := Nat.exists_eq_add_of_lt short
  have code := r.code_behind bytes
  have stop' : ¬((r.behind bytes).code 0).IsPrefix := by
    rw [code]
    exact stop
  have nothing : (r.behind bytes).code.decode? (r.behind bytes).prefixes = none :=
    (Code.decode?_eq_none_iff stop' _).mpr (code ▸ undefined)
  obtain ⟨n, givenUp⟩ := attempt_fetchAndExecute_of_undefined stop' nothing room
  have start : (r.behind bytes).cpu.registers.opIp = r.instructionStart := by
    rw [behind, markStart_eq]
    rfl
  have segment : (r.behind bytes).cpu.registers.cs = r.cpu.registers.cs := by
    rw [behind, markStart_eq]
    rfl
  rw [step_of_prefixes running holds prefixes (rest.trans (Nat.add_assoc _ room 1)), givenUp, code,
    start, segment]
  rfl

/-- What is not in the table is carried out. -/
theorem step_of_defined (running : r.cpu.halted = false) (holds : r.code.Holds bytes)
    (prefixes : ∀ b ∈ bytes, b.IsPrefix) (stop : ¬(r.code bytes.length).IsPrefix)
    (short : bytes.length < maxPrefixRun)
    (defined : ¬Encoding.Undefined (r.code.drop bytes.length)) :
    ∃ i length, r.fetched = .instruction i length ∧
      r.step = ((r.resumed.perform i length).1, of (r.resumed.perform i length).2) := by
  have awake : r.resumed.cpu.halted = false := r.halted_resumed.trans running
  have fetched := Fetched.ofCode_of_lt holds prefixes stop short r.prefixes
  cases decoded : (r.code.drop bytes.length).decode? (r.prefixes.extend bytes) with
  | none => exact absurd ((Code.decode?_eq_none_iff stop _).mp decoded) defined
  | some found =>
      obtain ⟨i, length⟩ := found
      rw [decoded] at fetched
      have performed := Machine.step_of_instruction awake (r.fetched_resumed.trans fetched)
      rw [markStart_resumed] at performed
      refine ⟨i, _, fetched, ?_⟩
      rw [step_eq_resumed running, performed]

end Runtime

end I8086
