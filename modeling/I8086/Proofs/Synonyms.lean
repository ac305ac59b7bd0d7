import Mathlib.Data.List.GetD
import I8086.Proofs.Agreement
import I8086.Proofs.InstructionPointer

/-!
# Encodings that mean the same

Many operations have a short encoding for a register or the accumulator besides the one with a
ModR/M byte, and some have two of equal rank. `Encoding.SameOperation` lists the pairs. Both
members of a pair are decoded to instructions of the same effect, so that two machines that differ
only in which of the two stands at `CS:IP` differ, after one step, only in these bytes and in the
offset at which control goes on.
-/

namespace I8086

namespace Encoding

/-- The opcode of a family whose lowest three bits number a register. -/
def numbered (family : Byte) (n : RegisterNumber) : Byte := family + BitVec.ofNat 8 n.val

/-- The opcode of a family whose lowest bit is set for words. -/
def sized (family : Byte) : Width → Byte
  | .byte => family
  | .word => family + 1

/-- The opcode of one of the six forms that every arithmetic operation has. -/
def arithmetic (form : Byte) (operation : RegisterNumber) : Byte :=
  form + BitVec.ofNat 8 (8 * operation.val)

/-- The ModR/M byte of a register field and a register. -/
def registerPair (reg rm : RegisterNumber) : Byte := BitVec.ofNat 8 (0xC0 + 8 * reg.val + rm.val)

/-- The ModR/M byte of a register field and an operand at a fixed offset. -/
def direct (reg : RegisterNumber) : Byte := BitVec.ofNat 8 (8 * reg.val + 6)

/-- A ModR/M byte and its displacement. -/
def IsOperand (m : Byte) (displacement : List Byte) : Prop :=
  1 + displacement.length = modRMLength m

/-- Two encodings of one operation, while CL has this value. -/
inductive SameOperation (cl : Byte) : List Byte → List Byte → Prop where
  | push (n : RegisterNumber) :
      SameOperation cl [numbered 0x50 n] [0xFF, registerPair 6 n]
  | pop (n : RegisterNumber) :
      SameOperation cl [numbered 0x58 n] [0x8F, registerPair 0 n]
  | inc (n : RegisterNumber) :
      SameOperation cl [numbered 0x40 n] [0xFF, registerPair 0 n]
  | dec (n : RegisterNumber) :
      SameOperation cl [numbered 0x48 n] [0xFF, registerPair 1 n]
  | xchg (n : RegisterNumber) :
      SameOperation cl [numbered 0x90 n] [0x87, registerPair 0 n]
  | xchgReversed (n : RegisterNumber) :
      SameOperation cl [numbered 0x90 n] [0x87, registerPair n 0]
  | movByte (n : RegisterNumber) (v : Byte) :
      SameOperation cl [numbered 0xB0 n, v] [0xC6, registerPair 0 n, v]
  | movWord (n : RegisterNumber) (low high : Byte) :
      SameOperation cl [numbered 0xB8 n, low, high] [0xC7, registerPair 0 n, low, high]
  | aluByte (op : RegisterNumber) (v : Byte) :
      SameOperation cl [arithmetic 4 op, v] [0x80, registerPair op 0, v]
  | aluWord (op : RegisterNumber) (low high : Byte) :
      SameOperation cl [arithmetic 5 op, low, high] [0x81, registerPair op 0, low, high]
  | aluAlias {m : Byte} {displacement : List Byte} (operand : IsOperand m displacement)
      (v : Byte) :
      SameOperation cl (0x82 :: m :: (displacement ++ [v])) (0x80 :: m :: (displacement ++ [v]))
  | aluSignExtended {m : Byte} {displacement : List Byte} (operand : IsOperand m displacement)
      (v : Byte) :
      SameOperation cl (0x83 :: m :: (displacement ++ [v]))
        (0x81 :: m :: (displacement ++ [v.signExtend.low, v.signExtend.high]))
  | load (w : Width) (low high : Byte) :
      SameOperation cl [sized 0xA0 w, low, high] [sized 0x8A w, direct 0, low, high]
  | store (w : Width) (low high : Byte) :
      SameOperation cl [sized 0xA2 w, low, high] [sized 0x88 w, direct 0, low, high]
  | testByte (v : Byte) :
      SameOperation cl [0xA8, v] [0xF6, registerPair 0 0, v]
  | testWord (low high : Byte) :
      SameOperation cl [0xA9, low, high] [0xF7, registerPair 0 0, low, high]
  | aluDirection (w : Width) (op left right : RegisterNumber) :
      SameOperation cl [sized (arithmetic 0 op) w, registerPair right left]
        [sized (arithmetic 2 op) w, registerPair left right]
  | movDirection (w : Width) (left right : RegisterNumber) :
      SameOperation cl [sized 0x88 w, registerPair right left]
        [sized 0x8A w, registerPair left right]
  | shift (w : Width) {m : Byte} {displacement : List Byte} (operand : IsOperand m displacement)
      (one : cl = 1) :
      SameOperation cl (sized 0xD0 w :: m :: displacement) (sized 0xD2 w :: m :: displacement)
  | jump (d : Byte) :
      SameOperation cl [0xEB, d] [0xE9, d.signExtend.low, d.signExtend.high]
  | returnNear : SameOperation cl [0xC3] [0xC2, 0, 0]
  | returnFar : SameOperation cl [0xCB] [0xCA, 0, 0]

/-- The encoding of a return that releases nothing. -/
def Returns (e : List Byte) : Prop := e = [0xC3] ∨ e = [0xCB]

instance (e : List Byte) : Decidable (Returns e) := inferInstanceAs (Decidable (_ ∨ _))

end Encoding

/-! ## Decoding the members of a pair -/

namespace Code

/-- The stream that begins with these bytes and holds only zeros behind them. -/
def ofList (bytes : List Byte) : Code := fun k => bytes.getD k 0

theorem drop_ofList (front back : List Byte) :
    (ofList (front ++ back)).drop front.length = ofList back := by
  funext k
  simp only [drop_apply, ofList, List.getD_append_right _ _ _ _ (Nat.le_add_right _ k),
    Nat.add_sub_cancel_left]

theorem agree_ofList {code : Code} {bytes : List Byte} (holds : code.Holds bytes) :
    Agree bytes.length (ofList bytes) code := by
  intro k hk
  rw [holds k hk, ofList, List.getD_eq_getElem _ _ hk]

variable {p : Prefixes} {i : Instruction} {bytes : List Byte}

/-- An instruction is decoded wherever its bytes are. -/
theorem decode?_of_holds {code : Code} (holds : code.Holds bytes)
    (decoded : (ofList bytes).decode? p = some (i, bytes.length)) :
    code.decode? p = some (i, bytes.length) := by
  have agree : Agree (Encoding.length (ofList bytes)) (ofList bytes) code := by
    rw [← snd_of_decode? decoded]
    exact agree_ofList holds
  rw [← decode?_congr p agree, decoded]

/-- The opcode comes first. -/
theorem decode?_ofList {b : Byte} (op : Opcode) {length : Nat}
    (opcode : Opcode.ofByte? b = some op)
    (rest : Instruction.decode? op p (ofList bytes) = some (i, length)) :
    (ofList (b :: bytes)).decode? p = some (i, length + 1) := by
  have behind : (ofList (b :: bytes)).drop 1 = ofList bytes := drop_ofList [b] bytes
  have first : ofList (b :: bytes) 0 = b := rfl
  rw [decode?, behind, first, opcode, Option.bind_some, rest, Option.map_some, Nat.add_comm]

/-- A byte that begins an instruction is no prefix. -/
theorem not_isPrefix_of_decode? {code : Code} {length : Nat}
    (decoded : code.decode? p = some (i, length)) : ¬(code 0).IsPrefix := by
  intro isPrefix
  obtain ⟨op, opcode, taken, _⟩ := Prefixes.add_of_isPrefix isPrefix
  rw [decode?, opcode, Option.bind_some] at decoded
  cases op with
  | segmentOverride | repeatString | lock => cases decoded
  | _ => cases taken

end Code

namespace Encoding

theorem ofByte_registerPair (reg rm : RegisterNumber) :
    ModRM.ofByte (registerPair reg rm) = ⟨3, reg, rm⟩ := by
  revert reg rm
  decide

theorem ofByte_direct (reg : RegisterNumber) : ModRM.ofByte (direct reg) = ⟨0, reg, 6⟩ := by
  revert reg
  decide

variable {b : Byte} {p : Prefixes} {data : List Byte} {i : Instruction} {length : Nat}

/-- An opcode with two registers behind it. -/
theorem decode?_registerPair (op : Opcode) (opcode : Opcode.ofByte? b = some op)
    (modRM : op.hasModRM = true) {reg rm : RegisterNumber}
    (decoded : Instruction.decodeModRM? op p reg (.register rm)
      (.ofList (registerPair reg rm :: data)) 1 = some (i, length)) :
    (Code.ofList (b :: registerPair reg rm :: data)).decode? p = some (i, length + 1) := by
  have first : Code.ofList (registerPair reg rm :: data) 0 = registerPair reg rm := rfl
  refine Code.decode?_ofList op opcode ?_
  rw [Instruction.decode?_of_hasModRM modRM, first, ofByte_registerPair]
  exact decoded

/-- An opcode with a register and an operand at a fixed offset behind it. -/
theorem decode?_direct (op : Opcode) (opcode : Opcode.ofByte? b = some op)
    (modRM : op.hasModRM = true) {reg : RegisterNumber} {low high : Byte}
    (decoded : Instruction.decodeModRM? op p reg
      (.memory ⟨p.dataSegment, .direct, Word.ofBytes low high⟩)
      (.ofList (direct reg :: low :: high :: data)) 3 = some (i, length)) :
    (Code.ofList (b :: direct reg :: low :: high :: data)).decode? p =
      some (i, length + 1) := by
  have first : Code.ofList (direct reg :: low :: high :: data) 0 = direct reg := rfl
  refine Code.decode?_ofList op opcode ?_
  rw [Instruction.decode?_of_hasModRM modRM, first, ofByte_direct]
  exact decoded

/-- The place that a ModR/M byte and its displacement name. -/
def operandPlace (p : Prefixes) (m : Byte) (displacement : List Byte) : Place :=
  (ModRM.ofByte m).place p.segment (displacement.getD 0 0) (displacement.getD 1 0)

/-- An opcode with any operand behind it. -/
theorem decode?_operand (op : Opcode) (opcode : Opcode.ofByte? b = some op)
    (modRM : op.hasModRM = true) {m : Byte} {displacement : List Byte}
    (operand : IsOperand m displacement)
    (decoded : Instruction.decodeModRM? op p (ModRM.ofByte m).reg (operandPlace p m displacement)
      (.ofList (m :: (displacement ++ data))) (displacement.length + 1) = some (i, length)) :
    (Code.ofList (b :: m :: (displacement ++ data))).decode? p = some (i, length + 1) := by
  have size : displacement.length = (ModRM.ofByte m).displacementLength := by
    rw [IsOperand, modRMLength_eq] at operand
    exact Nat.add_left_cancel operand
  have first : Code.ofList (m :: (displacement ++ data)) 0 = m := rfl
  have place : (ModRM.ofByte m).place p.segment (Code.ofList (m :: (displacement ++ data)) 1)
      (Code.ofList (m :: (displacement ++ data)) 2) = operandPlace p m displacement := by
    refine ModRM.place_congr _ _ (fun h => ?_) (fun h => ?_)
    · exact List.getD_append displacement data 0 0 (by omega)
    · exact List.getD_append displacement data 0 1 (by omega)
  refine Code.decode?_ofList op opcode ?_
  rw [Instruction.decode?_of_hasModRM modRM, first, place, ← size, Nat.add_comm]
  exact decoded

/-- An opcode with an operand and nothing behind it. -/
theorem decode?_of_operand (op : Opcode) (opcode : Opcode.ofByte? b = some op)
    (modRM : op.hasModRM = true) {m : Byte} {displacement : List Byte}
    (operand : IsOperand m displacement)
    (decoded : Instruction.decodeModRM? op p (ModRM.ofByte m).reg (operandPlace p m displacement)
      (.ofList (m :: displacement)) (displacement.length + 1) =
        some (i, displacement.length + 1)) :
    (Code.ofList (b :: m :: displacement)).decode? p =
      some (i, (b :: m :: displacement).length) := by
  have found : (Code.ofList (b :: m :: (displacement ++ []))).decode? p =
      some (i, displacement.length + 1 + 1) :=
    decode?_operand op opcode modRM operand (by rwa [List.append_nil])
  rwa [List.append_nil] at found

/-- The two encodings of a shift differ in what they count by. -/
theorem decode?_shift {w : Width} {m : Byte} {displacement : List Byte}
    (operand : IsOperand m displacement) (byCl : Bool) :
    (Code.ofList (sized (if byCl then 0xD2 else 0xD0) w :: m :: displacement)).decode? p =
      some (.shift w (.ofNumber (ModRM.ofByte m).reg) (operandPlace p m displacement)
        (if byCl then .cl else .one), displacement.length + 2) :=
  decode?_of_operand (.shiftGroup w byCl) (by cases w <;> cases byCl <;> rfl) rfl operand rfl

/-- The bytes behind an operand. -/
theorem ofList_behind (m : Byte) (displacement data : List Byte) (k : Nat) :
    Code.ofList (m :: (displacement ++ data)) (displacement.length + 1 + k) = data.getD k 0 :=
  congrFun (Code.drop_ofList (m :: displacement) data) k

end Encoding

/-! ## Instructions of the same effect -/

namespace Instruction

/-- The instructions have one effect while CL has this value, and lead to one place. They go on with
the program: they are no calls, and ask for nothing. -/
structure Synonymous (cl : Byte) (i i' : Instruction) : Prop where
  execute : ∀ c : Cpu, c.registers.low .cx = cl → c.execute i' = c.execute i
  flow : ∀ c, i'.flow c = i.flow c
  notCall : i.isCall = false
  notCall' : i'.isCall = false
  signal : ∀ c : Cpu, (c.execute i).2 = .next

/-- The instruction leads to the one behind it, and asks for nothing. -/
structure Sequential (i : Instruction) : Prop where
  notCall : i.isCall = false
  signal : ∀ c : Cpu, (c.execute i).2 = .next
  flow : ∀ c, i.flow c = .onward

/-- An instruction that goes on with the program is a synonym of itself. -/
theorem Synonymous.refl (cl : Byte) {i : Instruction} (notCall : i.isCall = false)
    (signal : ∀ c : Cpu, (c.execute i).2 = .next) : Synonymous cl i i :=
  ⟨fun _ _ => rfl, fun _ => rfl, notCall, notCall, signal⟩

/-- Two registers may be exchanged in either order. -/
theorem xchg_accumulator (cl : Byte) (n : RegisterNumber) :
    Synonymous cl (xchg .word (.register n) (.register .accumulator))
      (xchg .word (.register .accumulator) (.register n)) where
  execute c _ := by
    match n with
    | 0 | 1 | 2 | 3 | 4 | 5 | 6 | 7 => rfl
  flow _ := rfl
  notCall := rfl
  notCall' := rfl
  signal _ := rfl

/-- A shift by CL goes one position if CL is one. -/
theorem shift_one (w : Width) (op : ShiftOp) (target : Place) :
    Synonymous 1 (shift w op target .one) (shift w op target .cl) where
  execute c one := by
    have count : ShiftCount.cl.positions c = ShiftCount.one.positions c :=
      congrArg BitVec.toNat one
    rw [Cpu.execute, Cpu.execute, Cpu.shift_eq, Cpu.shift_eq, count]
  flow _ := rfl
  notCall := rfl
  notCall' := rfl
  signal _ := rfl

end Instruction

namespace Encoding

variable {cl : Byte} {e e' : List Byte}

theorem not_returns (a b : Byte) (rest : List Byte) : ¬Returns (a :: b :: rest) := by
  rintro (impossible | impossible) <;> cases impossible

theorem onward_ne_absolute : Flow.onward ≠ .absolute := nofun

theorem relative_ne_absolute (d : Word) : Flow.relative d ≠ .absolute := nofun

/-- The encodings are decoded to instructions of the same effect. Returns are the only ones that go
on at an offset of their own. -/
def Synonymous (cl : Byte) (p : Prefixes) (e e' : List Byte) : Prop :=
  ∃ i i', (Code.ofList e).decode? p = some (i, e.length) ∧
    (Code.ofList e').decode? p = some (i', e'.length) ∧ i.Synonymous cl i' ∧
    ∀ c, i.flow c = .absolute ↔ Returns e

/-- Encodings of one instruction. -/
theorem Synonymous.of_decode? {p : Prefixes} {i : Instruction}
    (first : (Code.ofList e).decode? p = some (i, e.length))
    (second : (Code.ofList e').decode? p = some (i, e'.length))
    (notCall : i.isCall = false) (signal : ∀ c : Cpu, (c.execute i).2 = .next)
    (leads : ∀ c, i.flow c = .absolute ↔ Returns e) : Synonymous cl p e e' :=
  ⟨i, i, first, second, .refl cl notCall signal, leads⟩

/-- Encodings of one instruction that leads to the next. -/
theorem Synonymous.of_sequential {p : Prefixes} {i : Instruction} (sequential : i.Sequential)
    (plain : ¬Returns e) (first : (Code.ofList e).decode? p = some (i, e.length))
    (second : (Code.ofList e').decode? p = some (i, e'.length)) : Synonymous cl p e e' := by
  refine .of_decode? first second sequential.notCall sequential.signal fun c => ?_
  rw [sequential.flow]
  exact iff_of_false onward_ne_absolute plain

/-- The short encoding of an instruction on a register has an opcode of its own in place of a ModR/M
byte. What follows is the same. -/
theorem Synonymous.of_registerPair {p : Prefixes} {i : Instruction} {b b' : Byte}
    {reg n : RegisterNumber} {data : List Byte} (op op' : Opcode)
    (opcode : Opcode.ofByte? b = some op) (opcode' : Opcode.ofByte? b' = some op')
    (modRM : op'.hasModRM = true) (sequential : i.Sequential) (plain : ¬Returns (b :: data))
    (short : Instruction.decode? op p (.ofList data) = some (i, data.length))
    (long : Instruction.decodeModRM? op' p reg (.register n)
      (.ofList (registerPair reg n :: data)) 1 = some (i, data.length + 1)) :
    Synonymous cl p (b :: data) (b' :: registerPair reg n :: data) :=
  .of_sequential sequential plain (Code.decode?_ofList op opcode short)
    (decode?_registerPair op' opcode' modRM long)

/-- The opcodes that have the operation in them. -/
theorem ofByte?_arithmetic (w : Width) (op : RegisterNumber) :
    Opcode.ofByte? (sized (arithmetic 0 op) w) = some (.alu (.ofNumber op) w false) ∧
      Opcode.ofByte? (sized (arithmetic 2 op) w) = some (.alu (.ofNumber op) w true) ∧
      Opcode.ofByte? (sized (arithmetic 4 op) w) = some (.aluAccumulator (.ofNumber op) w) := by
  revert op
  cases w <;> decide

/-- Both members of a pair are decoded to the same effect, under whatever prefixes. -/
theorem SameOperation.synonymous (same : SameOperation cl e e') (p : Prefixes) :
    Synonymous cl p e e' := by
  cases same with
  | push n =>
      have opcode : ∀ n, Opcode.ofByte? (numbered 0x50 n) = some (.pushRegister n) := by decide
      have plain : ∀ n, ¬Returns [numbered 0x50 n] := by decide
      have onward : Instruction.Sequential (.push (.register n)) :=
        ⟨rfl, fun _ => rfl, fun _ => rfl⟩
      exact .of_registerPair (.pushRegister n) .indirectGroup (opcode n) rfl rfl onward
        (plain n) rfl rfl
  | pop n =>
      have opcode : ∀ n, Opcode.ofByte? (numbered 0x58 n) = some (.popRegister n) := by decide
      have plain : ∀ n, ¬Returns [numbered 0x58 n] := by decide
      have onward : Instruction.Sequential (.pop (.register n)) :=
        ⟨rfl, fun _ => rfl, fun _ => rfl⟩
      exact .of_registerPair (.popRegister n) .popGroup (opcode n) rfl rfl onward (plain n) rfl rfl
  | inc n =>
      have opcode : ∀ n, Opcode.ofByte? (numbered 0x40 n) = some (.incRegister n) := by decide
      have plain : ∀ n, ¬Returns [numbered 0x40 n] := by decide
      have onward : Instruction.Sequential (.inc .word (.register n)) :=
        ⟨rfl, fun _ => rfl, fun _ => rfl⟩
      exact .of_registerPair (.incRegister n) .indirectGroup (opcode n) rfl rfl onward
        (plain n) rfl rfl
  | dec n =>
      have opcode : ∀ n, Opcode.ofByte? (numbered 0x48 n) = some (.decRegister n) := by decide
      have plain : ∀ n, ¬Returns [numbered 0x48 n] := by decide
      have onward : Instruction.Sequential (.dec .word (.register n)) :=
        ⟨rfl, fun _ => rfl, fun _ => rfl⟩
      exact .of_registerPair (.decRegister n) .indirectGroup (opcode n) rfl rfl onward
        (plain n) rfl rfl
  | xchg n =>
      have opcode : ∀ n, Opcode.ofByte? (numbered 0x90 n) = some (.xchgAccumulator n) := by decide
      have plain : ∀ n, ¬Returns [numbered 0x90 n] := by decide
      have onward : Instruction.Sequential (.xchg .word (.register n) (.register .accumulator)) :=
        ⟨rfl, fun _ => rfl, fun _ => rfl⟩
      exact .of_registerPair (.xchgAccumulator n) (.xchg .word) (opcode n) rfl rfl onward (plain n)
        rfl rfl
  | xchgReversed n =>
      have opcode : ∀ n, Opcode.ofByte? (numbered 0x90 n) = some (.xchgAccumulator n) := by decide
      have plain : ∀ n, ¬Returns [numbered 0x90 n] := by decide
      refine ⟨_, _, ?_, ?_, Instruction.xchg_accumulator cl n, fun c => ?_⟩
      · exact Code.decode?_ofList _ (opcode n) rfl
      · exact decode?_registerPair (.xchg .word) rfl rfl rfl
      · exact iff_of_false onward_ne_absolute (plain n)
  | movByte n v =>
      have opcode : ∀ n, Opcode.ofByte? (numbered 0xB0 n) = some (.movImmediate .byte n) := by
        decide
      have onward : Instruction.Sequential (.mov .byte (.register n) (.immediate v)) :=
        ⟨rfl, fun _ => rfl, fun _ => rfl⟩
      exact .of_registerPair (.movImmediate .byte n) (.movImmediateGroup .byte) (opcode n) rfl rfl
        onward (not_returns _ _ _) rfl rfl
  | movWord n low high =>
      have opcode : ∀ n, Opcode.ofByte? (numbered 0xB8 n) = some (.movImmediate .word n) := by
        decide
      have onward : Instruction.Sequential
          (.mov .word (.register n) (.immediate (Word.ofBytes low high))) :=
        ⟨rfl, fun _ => rfl, fun _ => rfl⟩
      exact .of_registerPair (.movImmediate .word n) (.movImmediateGroup .word) (opcode n) rfl rfl
        onward (not_returns _ _ _) rfl rfl
  | aluByte op v =>
      have onward : Instruction.Sequential
          (.alu .byte (.ofNumber op) (.register .accumulator) (.immediate v)) :=
        ⟨rfl, fun _ => rfl, fun _ => rfl⟩
      exact .of_registerPair (.aluAccumulator (.ofNumber op) .byte) (.aluGroup .byte false)
        (ofByte?_arithmetic .byte op).2.2 rfl rfl onward (not_returns _ _ _) rfl rfl
  | aluWord op low high =>
      have opcode : ∀ op, Opcode.ofByte? (arithmetic 5 op) =
          some (.aluAccumulator (.ofNumber op) .word) := by decide
      have onward : Instruction.Sequential
          (.alu .word (.ofNumber op) (.register .accumulator)
            (.immediate (Word.ofBytes low high))) :=
        ⟨rfl, fun _ => rfl, fun _ => rfl⟩
      exact .of_registerPair (.aluAccumulator (.ofNumber op) .word) (.aluGroup .word false)
        (opcode op) rfl rfl onward (not_returns _ _ _) rfl rfl
  | aluAlias operand v =>
      rename_i m displacement
      have value : Code.ofList (m :: (displacement ++ [v])) (displacement.length + 1) = v :=
        ofList_behind m displacement [v] 0
      have onward : Instruction.Sequential (.alu .byte (.ofNumber (ModRM.ofByte m).reg)
          (operandPlace p m displacement) (.immediate v)) :=
        ⟨rfl, fun _ => rfl, fun _ => rfl⟩
      refine .of_sequential onward (not_returns _ _ _) ?_ ?_
      · rw [List.length_cons, List.length_cons, List.length_append]
        refine decode?_operand (.aluGroup .byte false) rfl rfl operand ?_
        rw [Instruction.decodeModRM?, value]
        rfl
      · rw [List.length_cons, List.length_cons, List.length_append]
        refine decode?_operand (.aluGroup .byte false) rfl rfl operand ?_
        rw [Instruction.decodeModRM?, value]
        rfl
  | aluSignExtended operand v =>
      rename_i m displacement
      have short : Code.ofList (m :: (displacement ++ [v])) (displacement.length + 1) = v :=
        ofList_behind m displacement [v] 0
      have long : (Code.ofList (m :: (displacement ++ [v.signExtend.low, v.signExtend.high]))).word
          (displacement.length + 1) = v.signExtend := by
        rw [Code.word]
        exact (congrArg₂ _ (ofList_behind m displacement _ 0)
          (ofList_behind m displacement _ 1)).trans (Word.ofBytes_low_high _)
      have onward : Instruction.Sequential (.alu .word (.ofNumber (ModRM.ofByte m).reg)
          (operandPlace p m displacement) (.immediate v.signExtend)) :=
        ⟨rfl, fun _ => rfl, fun _ => rfl⟩
      refine .of_sequential onward (not_returns _ _ _) ?_ ?_
      · rw [List.length_cons, List.length_cons, List.length_append]
        refine decode?_operand (.aluGroup .word true) rfl rfl operand ?_
        rw [Instruction.decodeModRM?, short]
        rfl
      · rw [List.length_cons, List.length_cons, List.length_append]
        refine decode?_operand (.aluGroup .word false) rfl rfl operand ?_
        rw [Instruction.decodeModRM?, long]
        rfl
  | load w low high =>
      have onward : Instruction.Sequential (.mov w (.register .accumulator) (.place
          (.memory ⟨p.dataSegment, .direct, Word.ofBytes low high⟩))) :=
        ⟨rfl, fun _ => rfl, fun _ => rfl⟩
      refine .of_sequential onward (not_returns _ _ _) ?_ ?_
      · exact Code.decode?_ofList (.movAccumulator w true) (by cases w <;> rfl) rfl
      · exact decode?_direct (.mov w true) (by cases w <;> rfl) rfl rfl
  | store w low high =>
      have onward : Instruction.Sequential
          (.mov w (.memory ⟨p.dataSegment, .direct, Word.ofBytes low high⟩)
            (.place (.register .accumulator))) :=
        ⟨rfl, fun _ => rfl, fun _ => rfl⟩
      refine .of_sequential onward (not_returns _ _ _) ?_ ?_
      · exact Code.decode?_ofList (.movAccumulator w false) (by cases w <;> rfl) rfl
      · exact decode?_direct (.mov w false) (by cases w <;> rfl) rfl rfl
  | testByte v =>
      have onward : Instruction.Sequential (.test .byte (.register .accumulator) (.immediate v)) :=
        ⟨rfl, fun _ => rfl, fun _ => rfl⟩
      exact .of_registerPair (.testAccumulator .byte) (.unaryGroup .byte) rfl rfl rfl onward
        (not_returns _ _ _) rfl rfl
  | testWord low high =>
      have onward : Instruction.Sequential
          (.test .word (.register .accumulator) (.immediate (Word.ofBytes low high))) :=
        ⟨rfl, fun _ => rfl, fun _ => rfl⟩
      exact .of_registerPair (.testAccumulator .word) (.unaryGroup .word) rfl rfl rfl onward
        (not_returns _ _ _) rfl rfl
  | aluDirection w op left right =>
      obtain ⟨fromRegister, toRegister, _⟩ := ofByte?_arithmetic w op
      have onward : Instruction.Sequential
          (.alu w (.ofNumber op) (.register left) (.place (.register right))) :=
        ⟨rfl, fun _ => rfl, fun _ => rfl⟩
      refine .of_sequential onward (not_returns _ _ _) ?_ ?_
      · exact decode?_registerPair _ fromRegister rfl rfl
      · exact decode?_registerPair _ toRegister rfl rfl
  | movDirection w left right =>
      have onward : Instruction.Sequential (.mov w (.register left) (.place (.register right))) :=
        ⟨rfl, fun _ => rfl, fun _ => rfl⟩
      refine .of_sequential onward (not_returns _ _ _) ?_ ?_
      · exact decode?_registerPair (.mov w false) (by cases w <;> rfl) rfl rfl
      · exact decode?_registerPair (.mov w true) (by cases w <;> rfl) rfl rfl
  | shift w operand one =>
      rename_i m displacement
      subst one
      exact ⟨_, _, decode?_shift operand false, decode?_shift operand true,
        Instruction.shift_one w _ _,
        fun c => iff_of_false onward_ne_absolute (not_returns _ _ _)⟩
  | jump d =>
      refine .of_decode? (i := .jump d.signExtend) ?_ ?_ rfl (fun _ => rfl) fun c => ?_
      · exact Code.decode?_ofList .jumpShort rfl rfl
      · have distance : (Code.ofList [d.signExtend.low, d.signExtend.high]).word 0 = d.signExtend :=
          Word.ofBytes_low_high _
        refine Code.decode?_ofList .jumpNear rfl ?_
        rw [Instruction.decode?, distance]
        rfl
      · exact iff_of_false (relative_ne_absolute _) (not_returns _ _ _)
  | returnNear =>
      refine .of_decode? (i := .ret false 0) ?_ ?_ rfl (fun _ => rfl) fun c => ?_
      · exact Code.decode?_ofList (.ret false false) rfl rfl
      · exact Code.decode?_ofList (.ret false true) rfl rfl
      · exact iff_of_true rfl (.inl rfl)
  | returnFar =>
      refine .of_decode? (i := .ret true 0) ?_ ?_ rfl (fun _ => rfl) fun c => ?_
      · exact Code.decode?_ofList (.ret true false) rfl rfl
      · exact Code.decode?_ofList (.ret true true) rfl rfl
      · exact iff_of_true rfl (.inr rfl)

end Encoding

/-! ## Steps -/

namespace Machine

variable {World : Type} {m m' : Machine World} {bytes e e' : List Byte} {cl : Byte}

/-- A step that executes an instruction which is no call and asks for nothing. -/
theorem step_of_next {i : Instruction} {length : Nat} (running : m.cpu.halted = false)
    (fetched : m.fetched = .instruction i length) (notCall : i.isCall = false)
    (signal : (m.cpu.execute i).2 = .next) :
    m.step = (.ok .next, { m with
      cpu := (m.cpu.execute i).1.relocate
        ((i.flow m.cpu).ip (m.cpu.registers.ip + BitVec.ofNat 16 length)
          (m.cpu.execute i).1.registers.ip) m.instructionStart
      pending := none
      count := m.count + 1 }) := by
  have effect := Cpu.execute_relocate m.cpu
    (m.cpu.registers.ip + BitVec.ofNat 16 length) m.instructionStart notCall
  have executed : m.markStart.executed i length = { m with
      cpu := (m.cpu.execute i).1.relocate
        ((i.flow m.cpu).ip (m.cpu.registers.ip + BitVec.ofNat 16 length)
          (m.cpu.execute i).1.registers.ip) m.instructionStart
      pending := none } := by
    rw [Machine.executed, markStart_eq]
    exact congrArg (fun cpu => { m with cpu := cpu, pending := none }) (congrArg Prod.fst effect)
  rw [step_of_instruction running fetched, perform_eq, signal_eq, signal_markStart, signal,
    executed]
  rfl

/-- The bytes of one of two synonyms, behind prefixes, are what is fetched. -/
theorem fetched_of_decode? {i : Instruction} (holds : m.code.Holds (bytes ++ e))
    (prefixes : ∀ b ∈ bytes, b.IsPrefix) (short : bytes.length < maxPrefixRun)
    (decoded : (Code.ofList e).decode? ((m.pending.getD {}).extend bytes) = some (i, e.length)) :
    m.fetched = .instruction i (bytes.length + e.length) := by
  have found := Code.decode?_of_holds holds.right decoded
  have stop : ¬(m.code bytes.length).IsPrefix := Code.not_isPrefix_of_decode? found
  have fetched := Fetched.ofCode_of_lt holds.left prefixes stop short (m.pending.getD {})
  rwa [found] at fetched

/-- The bytes of the instruction at hand, whichever of two encodings is there. -/
def InEncodings (m : Machine World) (bytes e e' : List Byte) : Address → Prop :=
  m.cpu.Within .cs m.cpu.registers.ip (bytes.length + max e.length e'.length)

/-- The distance of the places where control goes on after the one and after the other encoding: the
difference in length, unless a return goes on elsewhere. -/
def encodingDistance (e e' : List Byte) : Word :=
  if Encoding.Returns e then 0 else BitVec.ofNat 16 e'.length - BitVec.ofNat 16 e.length

/-- Behind the two encodings control goes on at places of that distance. -/
theorem flow_ip_add {flow : Flow} (returns : flow = .absolute ↔ Encoding.Returns e)
    (next target : Word) (n : Nat) :
    flow.ip (next + BitVec.ofNat 16 (n + e'.length)) target =
      flow.ip (next + BitVec.ofNat 16 (n + e.length)) target + encodingDistance e e' := by
  have behind : next + BitVec.ofNat 16 (n + e'.length) =
      next + BitVec.ofNat 16 (n + e.length) +
        (BitVec.ofNat 16 e'.length - BitVec.ofNat 16 e.length) := by
    rw [BitVec.ofNat_add, BitVec.ofNat_add, BitVec.add_assoc next,
      BitVec.add_assoc (BitVec.ofNat 16 n), BitVec.add_comm (BitVec.ofNat 16 e.length),
      BitVec.sub_add_cancel]
  cases flow with
  | onward =>
      rw [encodingDistance, if_neg fun ret => nomatch returns.mpr ret]
      exact behind
  | relative d =>
      rw [encodingDistance, if_neg fun ret => nomatch returns.mpr ret]
      show next + BitVec.ofNat 16 (n + e'.length) + d =
        next + BitVec.ofNat 16 (n + e.length) + d + _
      rw [behind, BitVec.add_assoc (next + _), BitVec.add_comm _ d, ← BitVec.add_assoc]
  | absolute =>
      rw [encodingDistance, if_pos (returns.mp rfl)]
      exact (BitVec.add_zero _).symm

/-- The stack pointer is pushed as it is after the push. -/
theorem readWord_push_stackPointer (c : Cpu) (ip opIp : Word) :
    let after := (c.execute (.push (.register .stackPointer))).1.relocate ip opIp
    after.readWord .ss after.registers.sp = after.registers.sp := by
  intro after
  exact (Cpu.readWord_relocate _ ip opIp .ss _).trans (c.readWord_push (c.registers.sp - 2))

/-- Two machines that differ only in which of two encodings of one operation stands at `CS:IP`
differ as little after a step. -/
theorem step_sameOperation
    (same : Encoding.SameOperation (m.cpu.registers.low .cx) e e')
    (running : m.cpu.halted = false)
    (holds : m.code.Holds (bytes ++ e)) (holds' : m'.code.Holds (bytes ++ e'))
    (prefixes : ∀ b ∈ bytes, b.IsPrefix) (short : bytes.length < maxPrefixRun)
    (rest : m' = { m with cpu := m'.cpu })
    (alike : Cpu.Alike (m.InEncodings bytes e e') m.cpu m'.cpu)
    (apart : ∀ i length, m.fetched = .instruction i length →
      Cpu.Apart (i.Reads m.cpu) (m.InEncodings bytes e e')) :
    let after := m.step.2.cpu
    let after' := m'.step.2.cpu
    m.step.1 = .ok .next ∧ m'.step = (.ok .next, { m.step.2 with cpu := after' }) ∧
      after'.registers =
        { after.registers with ip := after.registers.ip + encodingDistance e e' } ∧
      after'.flags = after.flags ∧ after'.halted = after.halted ∧
      (∀ a, ¬m.InEncodings bytes e e' a → after'.memory.get a = after.memory.get a) ∧
      (e = [0x54] → after.readWord .ss after.registers.sp = after.registers.sp ∧
        after'.readWord .ss after'.registers.sp = after'.registers.sp) ∧
      (e = [0x5C] → after.registers.sp = m.cpu.readWord .ss m.cpu.registers.sp) := by
  intro after after'
  have pending : m'.pending = m.pending := by rw [rest]
  have start : m'.instructionStart = m.instructionStart := by
    rw [instructionStart, instructionStart, pending, alike.registers]
  obtain ⟨i, i', decoded, decoded', synonyms, returns⟩ :=
    same.synonymous ((m.pending.getD {}).extend bytes)
  have fetched := fetched_of_decode? holds prefixes short decoded
  have fetched' : m'.fetched = .instruction i' (bytes.length + e'.length) := by
    refine fetched_of_decode? holds' prefixes short ?_
    rwa [pending]
  have effect : m'.cpu.execute i' = m'.cpu.execute i := by
    refine synonyms.execute m'.cpu ?_
    rw [alike.registers]
  obtain ⟨executed, _⟩ := alike.execute (apart i _ fetched)
  have step := step_of_next running fetched synonyms.notCall (synonyms.signal _)
  have step' := step_of_next (alike.halted.trans running) fetched' synonyms.notCall'
    (by rw [effect]; exact synonyms.signal _)
  rw [effect, start, synonyms.flow, alike.flow, alike.registers, executed.registers,
    flow_ip_add (returns m.cpu)] at step'
  have cpu := congrArg (·.2.cpu) step
  have cpu' := congrArg (·.2.cpu) step'
  dsimp only at cpu cpu'
  refine ⟨congrArg Prod.fst step, ?_, ?_, ?_, ?_, ?_, ?_, ?_⟩
  · simp only [after', cpu', step, step']
    rw [rest]
  · simp only [after', after, cpu, cpu', Cpu.registers_relocate, executed.registers]
    rfl
  · simp only [after', after, cpu, cpu', Cpu.flags_relocate, executed.flags]
  · simp only [after', after, cpu, cpu', Cpu.halted_relocate, executed.halted]
  · intro a outside
    simp only [after', after, cpu, cpu', Cpu.memory_relocate, executed.memory a outside]
  · rintro rfl
    obtain rfl : i = .push (.register .stackPointer) := by
      injection decoded with pair
      injection pair with same
      exact same.symm
    constructor
    · simp only [after, cpu]
      exact readWord_push_stackPointer _ _ _
    · simp only [after', cpu']
      exact readWord_push_stackPointer _ _ _
  · rintro rfl
    obtain rfl : i = .pop (.register .stackPointer) := by
      injection decoded with pair
      injection pair with same
      exact same.symm
    simp only [after, cpu]
    rfl

/-- Machines that have been started with different programs differ only in those. -/
theorem alike_booted (first second : List Byte) {n : Nat} (short : first.length ≤ n)
    (short' : second.length ≤ n) (room : n ≤ 0x10) :
    Cpu.Alike ((booted first).cpu.Within .cs 0 n) (booted first).cpu (booted second).cpu := by
  have base : (0xFFFF#16).setWidth 20 <<< 4 = 0xFFFF0#20 := by decide
  have place (offset : Word) :
      (booted first).cpu.address .cs offset = 0xFFFF0#20 + offset.setWidth 20 := by
    rw [← base]
    rfl
  refine ⟨rfl, rfl, rfl, fun a outside => ?_⟩
  have far : n ≤ (a - 0xFFFF0#20).toNat := by
    refine Nat.le_of_not_lt fun near => outside ⟨(a - 0xFFFF0#20).toNat, near, ?_⟩
    have top : (a - 0xFFFF0#20).toNat < 0x10 := Nat.lt_of_lt_of_le near room
    rw [place]
    bv_omega
  have size : n ≤ memorySize := Nat.le_trans room (by decide)
  show (Memory.zero.store 0xFFFF0#20 second).get a = (Memory.zero.store 0xFFFF0#20 first).get a
  rw [Memory.get_store _ _ _ (by omega), Memory.get_store _ _ _ (by omega),
    dif_neg (by omega), dif_neg (by omega)]

end Machine

end I8086
