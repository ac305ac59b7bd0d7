import I8086.Proofs.PendingRun
import I8086.Proofs.Synonyms

/-!
# Encodings of the two-operand operations

The eight operations share their encodings. Six opcodes have the operation in them: two that
combine a register into an operand, two the other way round, and two that combine an immediate value
into the accumulator. Four more combine an immediate value into any operand and have the operation
in the register field behind them; the last of these extends a byte by its sign. A machine that is
about to execute an operation finds one of these encodings, and there is no other.
-/

namespace I8086

namespace Encoding

/-- The bytes of an immediate value. -/
def immediateBytes : (w : Width) → w.Value → List Byte
  | .byte, v => [v]
  | .word, v => [Word.low v, Word.high v]

/-- The encodings of an operation with a target and a source, behind prefixes. -/
inductive Operates (p : Prefixes) (op : RegisterNumber) :
    (w : Width) → Place → Source w → List Byte → Prop where
  | fromRegister (w : Width) {m : Byte} {displacement : List Byte}
      (operand : IsOperand m displacement) :
      Operates p op w (operandPlace p m displacement) (.place (.register (ModRM.ofByte m).reg))
        (sized (arithmetic 0 op) w :: m :: displacement)
  | toRegister (w : Width) {m : Byte} {displacement : List Byte}
      (operand : IsOperand m displacement) :
      Operates p op w (.register (ModRM.ofByte m).reg) (.place (operandPlace p m displacement))
        (sized (arithmetic 2 op) w :: m :: displacement)
  | accumulator (w : Width) (v : w.Value) :
      Operates p op w (.register .accumulator) (.immediate v)
        (sized (arithmetic 4 op) w :: immediateBytes w v)
  | immediate (w : Width) {m : Byte} {displacement : List Byte}
      (operand : IsOperand m displacement) (field : (ModRM.ofByte m).reg = op) (v : w.Value) :
      Operates p op w (operandPlace p m displacement) (.immediate v)
        (sized 0x80 w :: m :: (displacement ++ immediateBytes w v))
  | immediateAlias {m : Byte} {displacement : List Byte}
      (operand : IsOperand m displacement) (field : (ModRM.ofByte m).reg = op) (v : Byte) :
      Operates p op .byte (operandPlace p m displacement) (.immediate v)
        (0x82 :: m :: (displacement ++ [v]))
  | signExtended {m : Byte} {displacement : List Byte}
      (operand : IsOperand m displacement) (field : (ModRM.ofByte m).reg = op) (v : Byte) :
      Operates p op .word (operandPlace p m displacement) (.immediate v.signExtend)
        (0x83 :: m :: (displacement ++ [v]))

/-! ## Encodings are decoded -/

theorem length_immediateBytes (w : Width) (v : w.Value) :
    (immediateBytes w v).length = w.bytes := by
  cases w <;> rfl

/-- An immediate value is read where its bytes begin. -/
theorem value_of_holds {code : Code} {w : Width} {v : w.Value} {k : Nat}
    (holds : (code.drop k).Holds (immediateBytes w v)) : code.value w k = v := by
  cases w with
  | byte => exact holds 0 Nat.zero_lt_one
  | word =>
      have low : code k = Word.low v := holds 0 Nat.zero_lt_two
      have high : code (k + 1) = Word.high v := holds 1 Nat.one_lt_two
      rw [Code.value, Code.word, low, high, Word.ofBytes_low_high]

theorem holds_ofList (bytes : List Byte) : (Code.ofList bytes).Holds bytes := by
  intro k hk
  rw [Code.ofList, List.getD_eq_getElem _ _ hk]

/-- The immediate value behind an operand. -/
theorem value_behind (m : Byte) (displacement : List Byte) (w : Width) (v : w.Value) :
    (Code.ofList (m :: (displacement ++ immediateBytes w v))).value w (displacement.length + 1) =
      v :=
  value_of_holds (Code.drop_ofList (m :: displacement) (immediateBytes w v) ▸ holds_ofList _)

variable {p : Prefixes} {op : RegisterNumber} {w : Width} {target : Place} {source : Source w}

/-- Every encoding is decoded to the operation that it stands for. -/
theorem Operates.decode? {e : List Byte} (encodes : Operates p op w target source e) :
    (Code.ofList e).decode? p = some (.alu w (.ofNumber op) target source, e.length) := by
  cases encodes with
  | fromRegister w operand =>
      exact decode?_of_operand _ (ofByte?_arithmetic w op).1 rfl operand rfl
  | toRegister w operand =>
      exact decode?_of_operand _ (ofByte?_arithmetic w op).2.1 rfl operand rfl
  | accumulator w v =>
      have value : (Code.ofList (immediateBytes w v)).value w 0 = v :=
        value_of_holds ((Code.drop_zero _).symm ▸ holds_ofList _)
      rw [List.length_cons, length_immediateBytes]
      refine Code.decode?_ofList _ (ofByte?_arithmetic w op).2.2 ?_
      rw [Instruction.decode?, value]
  | immediate w operand field v =>
      rename_i m displacement
      have value := value_behind m displacement w v
      rw [List.length_cons, List.length_cons, List.length_append, length_immediateBytes, ← field]
      cases w with
      | byte =>
          refine decode?_operand (.aluGroup .byte false) rfl rfl operand ?_
          exact congrArg (fun v => some (Instruction.alu .byte _ _ (.immediate v), _)) value
      | word =>
          refine decode?_operand (.aluGroup .word false) rfl rfl operand ?_
          exact congrArg (fun v => some (Instruction.alu .word _ _ (.immediate v), _)) value
  | immediateAlias operand field v =>
      rename_i m displacement
      have value := value_behind m displacement .byte v
      rw [List.length_cons, List.length_cons, List.length_append, ← field]
      refine decode?_operand (.aluGroup .byte false) rfl rfl operand ?_
      exact congrArg (fun v => some (Instruction.alu .byte _ _ (.immediate v), _)) value
  | signExtended operand field v =>
      rename_i m displacement
      have value := value_behind m displacement .byte v
      rw [List.length_cons, List.length_cons, List.length_append, ← field]
      refine decode?_operand (.aluGroup .word true) rfl rfl operand ?_
      exact congrArg
        (fun v : Byte => some (Instruction.alu .word _ _ (.immediate v.signExtend), _)) value

end Encoding

/-! ## There are no others -/

/-- The opcodes of the operations. -/
def Opcode.isOperation : Opcode → Bool
  | alu _ _ _ | aluAccumulator _ _ | aluGroup _ _ => true
  | _ => false

namespace Instruction

variable {opcode : Opcode} {p : Prefixes} {code : Code} {w : Width} {op : AluOp} {target : Place}
  {source : Source w} {length : Nat}

theorem ofUnary_ne_alu (w' : Width) (p : Prefixes) (place : Place) (v : w'.Value)
    (n : RegisterNumber) : ofUnary w' p place v n ≠ .alu w op target source := by
  match n with
  | 0 | 1 | 2 | 3 | 4 | 5 | 6 | 7 => nofun

theorem isOperation_of_decodeModRM? {reg : RegisterNumber} {place : Place} {next : Nat}
    (decoded : decodeModRM? opcode p reg place code next =
      some (.alu w op target source, length)) : opcode.isOperation = true := by
  cases opcode with
  | alu | aluGroup => rfl
  | unaryGroup w' =>
      injection decoded with pair
      exact absurd (congrArg Prod.fst pair) (ofUnary_ne_alu w' p place _ reg)
  | stepGroup | indirectGroup | movFromSegment | movToSegment =>
      cases place <;>
        match reg with
        | 0 | 1 | 2 | 3 | 4 | 5 | 6 | 7 => cases decoded
  | movImmediateGroup | popGroup =>
      simp only [decodeModRM?] at decoded
      split at decoded <;> cases decoded
  | lea | les | lds => cases place <;> cases decoded
  | mov _ toRegister => cases toRegister <;> cases decoded
  | _ => cases decoded

theorem isOperation_of_decode? (decoded : decode? opcode p code =
    some (.alu w op target source, length)) : opcode.isOperation = true := by
  cases modRM : opcode.hasModRM with
  | true =>
      rw [decode?_of_hasModRM modRM] at decoded
      exact isOperation_of_decodeModRM? decoded
  | false =>
      cases opcode with
      | aluAccumulator => rfl
      | movAccumulator _ taken | input _ taken | output _ taken | ret _ taken =>
          cases taken <;> cases decoded
      | _ => first
        | exact absurd modRM (show true ≠ false by decide)
        | cases decoded

end Instruction

namespace Encoding

/-- The opcode bytes of the operations. -/
def IsOpcode (b : Byte) : Opcode → Prop
  | .alu op w toRegister =>
      ∃ k, op = .ofNumber k ∧ b = sized (arithmetic (if toRegister then 2 else 0) k) w
  | .aluAccumulator op w => ∃ k, op = .ofNumber k ∧ b = sized (arithmetic 4 k) w
  | .aluGroup w true => w = .word ∧ b = 0x83
  | .aluGroup w false => b = sized 0x80 w ∨ w = .byte ∧ b = 0x82
  | _ => True

instance (b : Byte) (opcode : Opcode) : Decidable (IsOpcode b opcode) := by
  unfold IsOpcode
  split <;> infer_instance

theorem isOpcode_of_ofByte? {b : Byte} {opcode : Opcode}
    (found : Opcode.ofByte? b = some opcode) : IsOpcode b opcode := by
  have all : ∀ b : Byte, (Opcode.ofByte? b).all fun opcode => IsOpcode b opcode := by
    decide +kernel
  have this := all b
  rwa [found, Option.all_some, decide_eq_true_eq] at this

/-- What stands in a stream is held by it. -/
theorem holds_map_range (code : Code) (n : Nat) : code.Holds ((List.range n).map code) := by
  intro k hk
  rw [List.getElem_map, List.getElem_range]

/-- The immediate value that stands in a stream. -/
theorem holds_immediateBytes (code : Code) (w : Width) (k : Nat) :
    (code.drop k).Holds (immediateBytes w (code.value w k)) := by
  cases w with
  | byte => exact Code.Holds.cons rfl nofun
  | word =>
      have low : Word.low (code.word k) = code k := Word.low_ofBytes _ _
      have high : Word.high (code.word k) = code (k + 1) := Word.high_ofBytes _ _
      exact Code.Holds.cons low.symm (Code.Holds.cons high.symm nofun)

/-- A ModR/M byte and its displacement, where they stand in a stream. -/
theorem exists_operand (code : Code) (p : Prefixes) :
    ∃ displacement, IsOperand (code 0) displacement ∧ code.Holds (code 0 :: displacement) ∧
      displacement.length + 1 = 1 + (ModRM.ofByte (code 0)).displacementLength ∧
      (ModRM.ofByte (code 0)).place p.segment (code 1) (code 2) =
        operandPlace p (code 0) displacement := by
  have holds := holds_map_range (code.drop 1) (ModRM.ofByte (code 0)).displacementLength
  have length : ((List.range (ModRM.ofByte (code 0)).displacementLength).map
      (code.drop 1)).length = (ModRM.ofByte (code 0)).displacementLength := by
    rw [List.length_map, List.length_range]
  generalize (List.range _).map _ = displacement at holds length
  refine ⟨displacement, ?_, holds.cons rfl, ?_, ?_⟩
  · rw [IsOperand, modRMLength_eq, length]
  · rw [length, Nat.add_comm]
  · refine ModRM.place_congr _ _ (fun first => ?_) (fun second => ?_)
    · rw [List.getD_eq_getElem _ _ (by omega)]
      exact holds 0 (by omega)
    · rw [List.getD_eq_getElem _ _ (by omega)]
      exact holds 1 (by omega)

/-- Where an operation is decoded, one of its encodings stands. -/
theorem operates_of_decode? {code : Code} {p : Prefixes} {w : Width} {op : AluOp}
    {target : Place} {source : Source w} {length : Nat}
    (decoded : code.decode? p = some (.alu w op target source, length)) :
    ∃ k e, op = .ofNumber k ∧ Operates p k w target source e ∧ code.Holds e := by
  simp only [Code.decode?, Option.map_eq_some_iff, Option.bind_eq_some_iff] at decoded
  obtain ⟨⟨i, rest⟩, ⟨opcode, found, decoded⟩, pair⟩ := decoded
  injection pair with same _
  subst same
  have operation := Instruction.isOperation_of_decode? decoded
  have byte := isOpcode_of_ofByte? found
  obtain ⟨displacement, operand, holds, behind, place⟩ := exists_operand (code.drop 1) p
  cases opcode with
  | aluAccumulator op' w' =>
      cases decoded
      obtain ⟨k, rfl, first⟩ := byte
      have immediate := holds_immediateBytes (code.drop 1) w 0
      rw [Code.drop_zero] at immediate
      exact ⟨k, _, rfl, .accumulator w _, .cons first immediate⟩
  | alu op' w' toRegister =>
      rw [Instruction.decode?_of_hasModRM rfl, place] at decoded
      cases toRegister with
      | false =>
          cases decoded
          obtain ⟨k, rfl, first⟩ := byte
          exact ⟨k, _, rfl, .fromRegister w operand, .cons first holds⟩
      | true =>
          cases decoded
          obtain ⟨k, rfl, first⟩ := byte
          exact ⟨k, _, rfl, .toRegister w operand, .cons first holds⟩
  | aluGroup w' signExtended =>
      rw [Instruction.decode?_of_hasModRM rfl, place, ← behind] at decoded
      have immediate (w : Width) := holds.append
        (holds_immediateBytes (code.drop 1) w (displacement.length + 1))
      cases w' with
      | byte =>
          cases signExtended with
          | false =>
              cases decoded
              rcases byte with first | ⟨_, first⟩
              · exact ⟨_, _, rfl, .immediate .byte operand rfl _, .cons first (immediate .byte)⟩
              · exact ⟨_, _, rfl, .immediateAlias operand rfl _, .cons first (immediate .byte)⟩
          | true => cases byte.1
      | word =>
          cases signExtended with
          | false =>
              cases decoded
              rcases byte with first | ⟨impossible, _⟩
              · exact ⟨_, _, rfl, .immediate .word operand rfl _, .cons first (immediate .word)⟩
              · cases impossible
          | true =>
              cases decoded
              exact ⟨_, _, rfl, .signExtended operand rfl _, .cons byte.2 (immediate .byte)⟩
  | _ => cases operation

end Encoding

theorem AluOp.ofNumber_injective : Function.Injective AluOp.ofNumber := by
  unfold Function.Injective
  decide

namespace Machine

variable {World : Type} {m : Machine World} {i : Instruction} {length : Nat}

/-- Behind the prefixes of an instruction that is fetched it is decoded. -/
theorem decode?_of_fetched (fetched : m.fetched = .instruction i length) :
    ∃ bytes n, (∀ b ∈ bytes, b.IsPrefix) ∧ bytes.length < maxPrefixRun ∧ m.code.Holds bytes ∧
      (m.code.drop bytes.length).decode? ((m.pending.getD {}).extend bytes) = some (i, n) ∧
      length = bytes.length + n := by
  obtain ⟨bytes, holds, prefixes, ⟨short, stop⟩ | all⟩ := m.code.exists_prefixes maxPrefixRun
  · have found := Fetched.ofCode_of_lt holds prefixes stop short (m.pending.getD {})
    rw [show Fetched.ofCode m.code (m.pending.getD {}) = .instruction i length from fetched]
      at found
    split at found
    · rename_i decoded
      cases found
      exact ⟨bytes, _, prefixes, short, holds, decoded, rfl⟩
    · cases found
  · have found := Fetched.ofCode_of_le holds prefixes (Nat.le_of_eq all.symm) (m.pending.getD {})
    rw [show Fetched.ofCode m.code (m.pending.getD {}) = .instruction i length from fetched]
      at found
    cases found

/-- At `CS:IP` stand prefixes, fewer than a step may read, and an encoding of an operation. -/
def Operates (m : Machine World) (op : RegisterNumber) (w : Width) (target : Place)
    (source : Source w) (length : Nat) : Prop :=
  ∃ bytes e, (∀ b ∈ bytes, b.IsPrefix) ∧ bytes.length < maxPrefixRun ∧
    m.code.Holds (bytes ++ e) ∧
    Encoding.Operates ((m.pending.getD {}).extend bytes) op w target source e ∧
    length = bytes.length + e.length

/-- An operation is fetched exactly where one of its encodings stands. -/
theorem fetched_iff_operates {op : RegisterNumber} {w : Width} {target : Place}
    {source : Source w} :
    m.fetched = .instruction (.alu w (.ofNumber op) target source) length ↔
      m.Operates op w target source length := by
  constructor
  · intro fetched
    obtain ⟨bytes, n, prefixes, short, holds, decoded, total⟩ := decode?_of_fetched fetched
    obtain ⟨k, e, same, encodes, there⟩ := Encoding.operates_of_decode? decoded
    obtain rfl := AluOp.ofNumber_injective same
    have found := Code.decode?_of_holds there encodes.decode?
    rw [decoded] at found
    injection found with pair
    injection pair with _ size
    rw [size] at total
    exact ⟨bytes, e, prefixes, short, holds.append there, encodes, total⟩
  · rintro ⟨bytes, e, prefixes, short, holds, encodes, rfl⟩
    exact fetched_of_decode? holds prefixes short encodes.decode?

end Machine

end I8086
