import I8086.Proofs.DataOperand
import I8086.Proofs.OperandAddress
import I8086.Proofs.Repetition

/-!
# What prefixes reach

A repeat prefix matters to string operations and to signed multiplication and division, and which
of the two it is matters to the operations that compare. A segment prefix matters to instructions
with a data operand, of which it chooses the segment, and to nothing else that they do. `Encoding`
tells from the bytes of an instruction which prefixes it heeds and where the operand lies, and has
nothing to do with decoding. The executions that are compared are those of `Machine.executeUnder`;
the step that finds the instruction behind a run of prefixes is one of them (`Machine.step_of_run`).
-/

namespace I8086

namespace Encoding

/-- The string operation that an opcode stands for. -/
def string? (opcode : Byte) : Option StringOp :=
  match opcode.toNat with
  | 0xA4 | 0xA5 => some .movs
  | 0xA6 | 0xA7 => some .cmps
  | 0xAA | 0xAB => some .stos
  | 0xAC | 0xAD => some .lods
  | 0xAE | 0xAF => some .scas
  | _ => none

/-- String operations heed repeat prefixes, and so do `IMUL` and `IDIV`. -/
def HeedsRepetition (code : Code) : Prop :=
  (string? (code 0)).isSome = true ∨
    ((code 0).toNat = 0xF6 ∨ (code 0).toNat = 0xF7) ∧
      (regField (code 1) = 5 ∨ regField (code 1) = 7)

/-- Comparing string operations tell one repeat prefix from the other. -/
def TellsRepetitions (code : Code) : Prop :=
  (string? (code 0)).any StringOp.compares = true

/-- The operand whose segment a prefix chooses: the segment that it has without one, and its offset.
It is the one that a ModR/M byte names, unless that is a register or only its address is taken, and
that of `MOV` with an offset behind the opcode, of `XLAT`, and of string operations at `SI`. -/
def dataOperand? (code : Code) : Option (Segment × (Registers → Word)) :=
  let n := (code 0).toNat
  let mode := (code 1).toNat / 64
  let place := (code 1).toNat % 8
  if hasModRM (code 0) then
    if mode = 3 ∨ n = 0x8D ∨ 0xD8 ≤ n ∧ n < 0xE0 then none
    else
      some (operandSegment none mode place,
        fun r => BitVec.ofInt 16 (operandOffset r mode place (code 2) (code 3)))
  else if 0xA0 ≤ n ∧ n < 0xA4 then some (.ds, fun _ => code.word 1)
  else if n = 0xD7 then some (.ds, fun r => r.bx + (r.low .ax).setWidth 16)
  else if (string? (code 0)).any StringOp.loads then some (.ds, Registers.si)
  else none

end Encoding

/-! ## Opcodes -/

namespace Opcode

/-- The string operation. -/
def string? : Opcode → Option StringOp
  | string op _ => some op
  | _ => none

/-- The operations on one operand. -/
def isUnary : Opcode → Bool
  | unaryGroup _ => true
  | _ => false

/-- `MOV` between the accumulator and an offset behind the opcode. -/
def isDirect : Opcode → Bool
  | movAccumulator _ _ => true
  | _ => false

/-- The opcodes whose operand is not accessed. -/
def ignoresOperand : Opcode → Bool
  | lea | esc => true
  | _ => false

/-- The operand whose segment a prefix chooses, with `code` the bytes after the opcode. -/
def dataOperand? (op : Opcode) (code : Code) : Option (Segment × (Registers → Word)) :=
  let m := ModRM.ofByte (code 0)
  if op.hasModRM then
    if m.mode.val = 3 ∨ op.ignoresOperand = true then none
    else
      some (Encoding.operandSegment none m.mode m.rm,
        fun r => BitVec.ofInt 16 (Encoding.operandOffset r m.mode m.rm (code 1) (code 2)))
  else if op.isDirect then some (.ds, fun _ => code.word 0)
  else if op = xlat then some (.ds, fun r => r.bx + (r.low .ax).setWidth 16)
  else if op.string?.any StringOp.loads then some (.ds, Registers.si)
  else none

end Opcode

namespace Encoding

variable {b : Byte} {code : Code} {op : Opcode}

/-- The tables say of a byte what is true of an opcode. -/
def Tells (b : Byte) (op : Opcode) : Prop :=
  hasModRM b = op.hasModRM ∧ string? b = op.string? ∧
    ((b.toNat = 0xF6 ∨ b.toNat = 0xF7) ↔ op.isUnary = true) ∧
    ((0xA0 ≤ b.toNat ∧ b.toNat < 0xA4) ↔ op.isDirect = true) ∧ (b.toNat = 0xD7 ↔ op = .xlat) ∧
    ((b.toNat = 0x8D ∨ 0xD8 ≤ b.toNat ∧ b.toNat < 0xE0) ↔ op.ignoresOperand = true)

instance (b : Byte) (op : Opcode) : Decidable (Tells b op) := inferInstanceAs (Decidable (_ ∧ _))

theorem tells_of_ofByte? (opcode : Opcode.ofByte? b = some op) : Tells b op := by
  have table : ∀ b : Byte, (Opcode.ofByte? b).all fun op => Tells b op := by decide +kernel
  have here := table b
  rwa [opcode, Option.all_some, decide_eq_true_eq] at here

/-- The operand that the bytes tell is that of their opcode. -/
theorem dataOperand?_eq (opcode : Opcode.ofByte? (code 0) = some op) :
    dataOperand? code = op.dataOperand? (code.drop 1) := by
  obtain ⟨modRM, strings, -, direct, xlat, ignores⟩ := tells_of_ofByte? opcode
  simp only [dataOperand?, Opcode.dataOperand?, modRM, strings, direct, xlat, ignores, mode_eq,
    place_eq]
  rfl

end Encoding

/-! ## Effects -/

/-- What the processor does with the instruction that begins with an opcode. -/
def Instruction.effect? (op : Opcode) (p : Prefixes) (code : Code) :
    Option (Cpu → Cpu × Signal) :=
  (decode? op p code).map fun found c => c.execute found.1

/-- What the processor does with the instruction whose opcode is the first byte. -/
def Code.effect? (code : Code) (p : Prefixes) : Option (Cpu → Cpu × Signal) :=
  (Opcode.ofByte? (code 0)).bind fun op => Instruction.effect? op p (code.drop 1)

namespace Instruction

variable {op : Opcode} {code : Code} (s : Option Segment) (r : Option Repetition)

/-! ## Repetitions -/

variable (r' : Option Repetition)

theorem ofUnary_repetition {w : Width} (target : Place) (v : w.Value) {reg : RegisterNumber}
    (same : reg.val = 5 ∨ reg.val = 7 → r.isSome = r'.isSome) :
    ofUnary w ⟨s, r⟩ target v reg = ofUnary w ⟨s, r'⟩ target v reg := by
  match reg with
  | 0 | 1 | 2 | 3 | 4 | 6 => rfl
  | 5 => exact congrArg (imul w target) (same (.inl rfl))
  | 7 => exact congrArg (idiv w target) (same (.inr rfl))

/-- Apart from string operations it is decoded only whether there is a repetition, and this only for
signed multiplication and division. -/
theorem decode?_repetition (notString : op.string? = none)
    (same : op.isUnary = true →
      (ModRM.ofByte (code 0)).reg.val = 5 ∨ (ModRM.ofByte (code 0)).reg.val = 7 →
        r.isSome = r'.isSome) :
    decode? op ⟨s, r⟩ code = decode? op ⟨s, r'⟩ code := by
  cases op with
  | string => cases notString
  | unaryGroup w =>
      have same := ofUnary_repetition s r r'
        ((ModRM.ofByte (code 0)).place s (code 1) (code 2))
        (code.value w (1 + (ModRM.ofByte (code 0)).displacementLength)) (same rfl)
      simp only [decode?, decodeModRM?, same]
  | aluGroup w signExtended => cases w <;> cases signExtended <;> rfl
  | alu _ _ taken | mov _ taken | movAccumulator _ taken | input _ taken | output _ taken
  | ret _ taken => cases taken <;> rfl
  | _ => rfl

/-- Only comparisons tell one repetition from the other. -/
theorem effect?_whileZero (plain : op.string?.any StringOp.compares = false) :
    effect? op ⟨s, some .whileZero⟩ code = effect? op ⟨s, some .whileNotZero⟩ code := by
  cases strings : op.string? with
  | none =>
      rw [effect?, effect?,
        decode?_repetition s (some .whileZero) (some .whileNotZero) strings fun _ _ => rfl]
  | some name =>
      cases op with
      | string name w =>
          have same (source : Segment) (c : Cpu) : c.string w name source (some .whileZero) =
              c.string w name source (some .whileNotZero) :=
            (Cpu.stringElements_of_stores c plain).trans
              (Cpu.stringElements_of_stores c plain).symm
          refine congrArg some (funext fun c => ?_)
          exact congrArg (·, Signal.next) (same _ c)
      | _ => cases strings

/-! ## Segments -/

/-- Operations without a source are the same for every segment of it. -/
theorem string_of_not_loads {w : Width} {op : StringOp} (plain : op.loads = false)
    (repetition : Option Repetition) (c : Cpu) (s t : Segment) :
    c.string w op s repetition = c.string w op t repetition := by
  have element (c : Cpu) : c.stringElement w op s = c.stringElement w op t := by
    cases op with
    | movs | cmps | lods => cases plain
    | stos | scas => rfl
  cases repetition with
  | none => exact element c
  | some r =>
      change Cpu.stringElements w op s r _ c = Cpu.stringElements w op t r _ c
      generalize c.registers.cx.toNat = count
      induction count generalizing c with
      | zero => rfl
      | succ count ih =>
          rw [Cpu.stringElements_succ, Cpu.stringElements_succ, element]
          simp only [ih]

theorem decodeModRM?_segment (reg : RegisterNumber) (place : Place) (next : Nat) :
    decodeModRM? op ⟨s, r⟩ reg place code next = decodeModRM? op ⟨none, r⟩ reg place code next := by
  cases op with
  | aluGroup w signExtended => cases w <;> cases signExtended <;> rfl
  | alu _ _ taken | mov _ taken => cases taken <;> rfl
  | _ => rfl

/-- In front of a ModR/M byte that names a memory location a prefix chooses its segment. -/
theorem decode?_of_memory (modRM : op.hasModRM = true)
    (memory : (ModRM.ofByte (code 0)).mode ≠ 3) :
    decode? op ⟨s, r⟩ code =
      let m := ModRM.ofByte (code 0)
      decodeModRM? op ⟨none, r⟩ m.reg
        (.memory ⟨s.getD m.defaultSegment, m.base, m.displacement (code 1) (code 2)⟩) code
        (1 + m.displacementLength) := by
  rw [decode?_of_hasModRM modRM, decodeModRM?_segment, ModRM.place_of_memory _ _ _ _ memory]

/-- Without a data operand the segment is of no account. -/
theorem effect?_segment (absent : op.dataOperand? code = none) :
    effect? op ⟨s, r⟩ code = effect? op ⟨none, r⟩ code := by
  rw [Opcode.dataOperand?] at absent
  cases modRM : op.hasModRM with
  | true =>
      simp only [modRM, if_true] at absent
      split at absent
      · rename_i unused
        by_cases register : (ModRM.ofByte (code 0)).mode = 3
        · rw [effect?, effect?, decode?_of_hasModRM modRM, decode?_of_hasModRM modRM,
            decodeModRM?_segment, ModRM.place_of_register _ _ _ _ register,
            ModRM.place_of_register _ _ _ _ register]
        · have ignores := unused.resolve_left fun three => register (Fin.ext three)
          rw [effect?, effect?, decode?_of_memory _ _ modRM register,
            decode?_of_memory _ _ modRM register]
          cases op with
          | lea | esc => rfl
          | _ => cases ignores
      · cases absent
  | false =>
      cases op with
      | string op w =>
          have plain : op.loads = false := by
            change (if op.loads = true then some (Segment.ds, Registers.si) else none) = none
              at absent
            cases loads : op.loads with
            | false => rfl
            | true =>
                rw [loads] at absent
                cases absent
          refine congrArg some (funext fun c => ?_)
          exact congrArg (·, Signal.next) (string_of_not_loads plain r c _ _)
      | movAccumulator | xlat => cases absent
      | input _ taken | output _ taken | ret _ taken => cases taken <;> rfl
      | _ => first
        | rfl
        | cases modRM

/-- The instructions that a ModR/M byte completes with a memory location use it, unless they do not
access it at all. -/
theorem exists_dataUse_of_decodeModRM? (modRM : op.hasModRM = true)
    (accesses : op.ignoresOperand = false) (p : Prefixes) (reg : RegisterNumber) (b : AddressBase)
    (d : Word) (next : Nat) :
    (∀ s, decodeModRM? op p reg (.memory ⟨s, b, d⟩) code next = none) ∨
      ∃ u : DataUse, (∀ s, ∃ i length,
        decodeModRM? op p reg (.memory ⟨s, b, d⟩) code next = some (i, length) ∧
          i.dataUse? = some (s, u)) ∧ u.offset = (b.value · + d) := by
  cases op with
  | lea | esc => cases accesses
  | alu op w taken | mov w taken =>
      cases taken <;> exact .inr ⟨_, fun s => ⟨_, _, rfl, rfl⟩, rfl⟩
  | aluGroup w signExtended =>
      cases w <;> cases signExtended <;> exact .inr ⟨_, fun s => ⟨_, _, rfl, rfl⟩, rfl⟩
  | unaryGroup w =>
      match reg with
      | 0 | 1 | 2 | 3 | 4 | 5 | 6 | 7 => exact .inr ⟨_, fun s => ⟨_, _, rfl, rfl⟩, rfl⟩
  | test w | xchg w | les | lds | shiftGroup w byCl =>
      exact .inr ⟨_, fun s => ⟨_, _, rfl, rfl⟩, rfl⟩
  | stepGroup =>
      match reg with
      | 0 | 1 => exact .inr ⟨_, fun s => ⟨_, _, rfl, rfl⟩, rfl⟩
      | 2 | 3 | 4 | 5 | 6 | 7 => exact .inl fun s => rfl
  | indirectGroup =>
      match reg with
      | 0 | 1 | 2 | 3 | 4 | 5 | 6 => exact .inr ⟨_, fun s => ⟨_, _, rfl, rfl⟩, rfl⟩
      | 7 => exact .inl fun s => rfl
  | movFromSegment | movToSegment =>
      match reg with
      | 0 | 1 | 2 | 3 => exact .inr ⟨_, fun s => ⟨_, _, rfl, rfl⟩, rfl⟩
      | 4 | 5 | 6 | 7 => exact .inl fun s => rfl
  | movImmediateGroup w =>
      match reg with
      | 0 => exact .inr ⟨_, fun s => ⟨_, _, rfl, rfl⟩, rfl⟩
      | 1 | 2 | 3 | 4 | 5 | 6 | 7 => exact .inl fun s => rfl
  | popGroup =>
      match reg with
      | 0 => exact .inr ⟨_, fun s => ⟨_, _, rfl, rfl⟩, rfl⟩
      | 1 | 2 | 3 | 4 | 5 | 6 | 7 => exact .inl fun s => rfl
  | _ => cases modRM

theorem effect?_of_dataUse {p : Prefixes} {i : Instruction} {length : Nat} {t : Segment}
    {u : DataUse} (decoded : decode? op p code = some (i, length))
    (uses : i.dataUse? = some (t, u)) : effect? op p code = some (u.run t) := by
  rw [effect?, decoded]
  exact congrArg some (funext fun c => c.execute_eq_run uses)

/-- With a data operand it is all that the segment has a part in. -/
theorem exists_dataUse {d : Segment} {offset : Registers → Word}
    (found : op.dataOperand? code = some (d, offset)) :
    (∀ s, effect? op ⟨s, r⟩ code = none) ∨
      ∃ u : DataUse, u.offset = offset ∧ ∀ s, effect? op ⟨s, r⟩ code = some (u.run (s.getD d)) := by
  cases modRM : op.hasModRM with
  | true =>
      rw [Opcode.dataOperand?] at found
      simp only [modRM, if_true] at found
      split at found
      · cases found
      rename_i used
      obtain ⟨notThree, accesses⟩ := not_or.mp used
      have memory : (ModRM.ofByte (code 0)).mode ≠ 3 :=
        fun three => notThree (congrArg Fin.val three)
      have decode? := fun s => decode?_of_memory s r modRM memory
      have location := fun registers =>
        ModRM.resolve_place_of_memory _ none registers (code 1) (code 2) memory
      rw [ModRM.place_of_memory _ _ _ _ memory] at location
      have default := (ModRM.ofByte (code 0)).defaultSegment_eq none
      generalize ModRM.ofByte (code 0) = m at *
      cases found
      obtain undefined | ⟨u, uses, offset⟩ :=
        exists_dataUse_of_decodeModRM? modRM (Bool.eq_false_iff.mpr accesses) ⟨none, r⟩ m.reg m.base
          (m.displacement (code 1) (code 2)) (1 + m.displacementLength)
      · refine .inl fun s => ?_
        rw [effect?, decode?, undefined]
        rfl
      · refine .inr ⟨u, ?_, fun s => ?_⟩
        · rw [offset]
          funext registers
          exact (Operand.memory.inj (location registers)).2
        · rw [← default]
          obtain ⟨i, length, decoded, uses⟩ := uses (s.getD m.defaultSegment)
          exact effect?_of_dataUse ((decode? s).trans decoded) uses
  | false =>
      cases op with
      | movAccumulator w taken =>
          cases found
          have offset : (fun _ => code.word 0 : Registers → Word) =
              (AddressBase.direct.value · + code.word 0) :=
            funext fun _ => (BitVec.zero_add _).symm
          rw [offset]
          cases taken <;> exact .inr ⟨_, rfl, fun s => effect?_of_dataUse rfl rfl⟩
      | xlat =>
          cases found
          exact .inr ⟨_, rfl, fun s => effect?_of_dataUse rfl rfl⟩
      | string op w =>
          change (if op.loads = true then some (Segment.ds, Registers.si) else none) = _ at found
          split at found
          · rename_i loads
            cases found
            refine .inr ⟨.string w op r, ?_, fun s => effect?_of_dataUse rfl (if_pos loads)⟩
            cases r <;> rfl
          · cases found
      | _ => first
        | cases found
        | cases modRM

end Instruction

/-! ## The bytes at hand -/

namespace Code

variable {code code' : Code} {p q : Prefixes} (s : Option Segment) (r : Option Repetition)

theorem effect?_eq (code : Code) (p : Prefixes) :
    code.effect? p = (code.decode? p).map fun found c => c.execute found.1 := by
  rw [effect?, decode?]
  cases Opcode.ofByte? (code 0) with
  | none => rfl
  | some op =>
      change (Instruction.decode? op p (code.drop 1)).map _ = _
      cases found : Instruction.decode? op p (code.drop 1) with
      | none => simp only [Option.bind_some, found, Option.map_none]
      | some i => simp only [Option.bind_some, found, Option.map_some]

theorem effect?_congr
    (same : ∀ op, Opcode.ofByte? (code 0) = some op →
      Instruction.effect? op p (code.drop 1) = Instruction.effect? op q (code.drop 1)) :
    code.effect? p = code.effect? q := by
  rw [effect?, effect?]
  cases opcode : Opcode.ofByte? (code 0) with
  | none => rfl
  | some op => exact same op opcode

theorem effect?_repetition (heedless : ¬Encoding.HeedsRepetition code) :
    code.effect? ⟨s, r⟩ = code.effect? ⟨s, none⟩ := by
  refine effect?_congr fun op opcode => ?_
  obtain ⟨-, strings, unary, -⟩ := Encoding.tells_of_ofByte? opcode
  have behind : code.drop 1 0 = code 1 := rfl
  rw [Encoding.HeedsRepetition, strings, unary, Encoding.regField_eq, ← behind, not_or] at heedless
  obtain ⟨notString, unsigned⟩ := heedless
  rw [Option.not_isSome_iff_eq_none] at notString
  rw [Instruction.effect?, Instruction.effect?, Instruction.decode?_repetition s r none notString]
  intro isUnary signed
  exact absurd ⟨isUnary, signed⟩ unsigned

theorem effect?_whileZero (plain : ¬Encoding.TellsRepetitions code) :
    code.effect? ⟨s, some .whileZero⟩ = code.effect? ⟨s, some .whileNotZero⟩ := by
  refine effect?_congr fun op opcode => ?_
  rw [Encoding.TellsRepetitions, (Encoding.tells_of_ofByte? opcode).2.1] at plain
  exact Instruction.effect?_whileZero s (Bool.eq_false_iff.mpr plain)

theorem effect?_segment (absent : Encoding.dataOperand? code = none) :
    code.effect? ⟨s, r⟩ = code.effect? ⟨none, r⟩ := by
  refine effect?_congr fun op opcode => ?_
  rw [Encoding.dataOperand?_eq opcode] at absent
  exact Instruction.effect?_segment s r absent

theorem exists_dataUse {d : Segment} {offset : Registers → Word}
    (found : Encoding.dataOperand? code = some (d, offset)) :
    (∀ s, code.effect? ⟨s, r⟩ = none) ∨
      ∃ u : DataUse, u.offset = offset ∧ ∀ s, code.effect? ⟨s, r⟩ = some (u.run (s.getD d)) := by
  cases opcode : Opcode.ofByte? (code 0) with
  | none =>
      refine .inl fun s => ?_
      rw [effect?, opcode]
      rfl
  | some op =>
      have same (s : Option Segment) :
          code.effect? ⟨s, r⟩ = Instruction.effect? op ⟨s, r⟩ (code.drop 1) := by
        rw [effect?, opcode]
        rfl
      simp only [same]
      rw [Encoding.dataOperand?_eq opcode] at found
      exact Instruction.exists_dataUse r found

end Code

/-! ## Execution under prefixes -/

namespace Machine

variable {World : Type}

/-- Executes the instruction at `CS:IP` in the way given: behind its bytes, and with the interrupt
delivered that it may ask for. -/
def carryOut (m : Machine World) (f : Cpu → Cpu × Signal) : Except Fault Step × Machine World :=
  let result := f (m.cpu.advance (BitVec.ofNat 16 (Encoding.length m.code)))
  concluded (follow { m with cpu := result.1, pending := none } result.2)

theorem executeUnder_eq (m : Machine World) (p : Prefixes) :
    m.executeUnder p =
      match m.code.effect? p with
      | some f => m.carryOut f
      | none => m.reject (m.code 0) := by
  rw [Code.effect?_eq, executeUnder]
  cases decoded : m.code.decode? p with
  | none => rfl
  | some found =>
      obtain ⟨i, length⟩ := found
      cases Code.snd_of_decode? decoded
      rfl

theorem executeUnder_congr {m : Machine World} {p q : Prefixes}
    (same : m.code.effect? p = m.code.effect? q) : m.executeUnder p = m.executeUnder q := by
  rw [executeUnder_eq, executeUnder_eq, same]

theorem carryOut_congr (m : Machine World) (u : DataUse) {s t : Segment}
    (same : m.cpu.registers.segment s = m.cpu.registers.segment t) :
    m.carryOut (u.run s) = m.carryOut (u.run t) := by
  have behind : (m.cpu.advance (BitVec.ofNat 16 (Encoding.length m.code))).registers.segment s =
      (m.cpu.advance (BitVec.ofNat 16 (Encoding.length m.code))).registers.segment t := by
    cases s <;> cases t <;> exact same
  rw [carryOut, carryOut, u.run_congr behind]

/-- A segment prefix has no effect where all segments have one base. -/
theorem executeUnder_of_coincide {m : Machine World}
    (coincide : ∀ s t, m.cpu.registers.segment s = m.cpu.registers.segment t)
    (s : Option Segment) (r : Option Repetition) :
    m.executeUnder ⟨s, r⟩ = m.executeUnder ⟨none, r⟩ := by
  cases found : Encoding.dataOperand? m.code with
  | none => exact executeUnder_congr (Code.effect?_segment s r found)
  | some operand =>
      obtain ⟨d, offset⟩ := operand
      obtain undefined | ⟨u, -, effect⟩ := Code.exists_dataUse r found
      · exact executeUnder_congr ((undefined s).trans (undefined none).symm)
      · rw [executeUnder_eq, executeUnder_eq, effect, effect]
        exact m.carryOut_congr u (coincide _ _)

end Machine

end I8086
