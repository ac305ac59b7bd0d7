import I8086.Proofs.Action.Control
import I8086.Proofs.Action.Transfer

/-!
# All opcodes

`Action.execute` gives every opcode to its handler. A handler knows no more than the opcode: it
takes what belongs to it from the instruction stream, and finds out by itself that there is no such
instruction. `attempt_execute` says what comes of it. Where the bytes complete the opcode to an
instruction, its effect comes about, with IP behind it, and different handlers whose bytes are
decoded to one instruction do the same. Where they do not, the handler has taken the ModR/M byte and
its displacement when it gives up, and has changed nothing.
-/

namespace I8086.Runtime

variable {World : Type}

namespace Action

/-- Executes an opcode. The byte itself is for the fault of those that are not defined. -/
def execute (op : Opcode) (opcode : Byte) : Action World Step :=
  match op with
  | .segmentOverride _ | .repeatString _ | .lock => return .next
  -- Arithmetic and logic
  | .alu op w toRegister => onward (alu op w toRegister)
  | .aluAccumulator op w => onward (aluAccumulator op w)
  | .aluGroup w signExtended => onward (aluGroup w signExtended)
  | .test w => onward (test w)
  | .testAccumulator w => onward (testAccumulator w)
  | .incRegister n => onward (increaseRegister n false)
  | .decRegister n => onward (increaseRegister n true)
  | .unaryGroup w => unaryGroup w
  | .stepGroup => onward (stepGroup opcode)
  | .indirectGroup => onward (indirectGroup opcode)
  | .daa => onward (adjustPacked Decimal.packedAdd)
  | .das => onward (adjustPacked Decimal.packedSub)
  | .aaa => onward (adjustUnpacked Decimal.unpackedAdd)
  | .aas => onward (adjustUnpacked Decimal.unpackedSub)
  | .aam => aam
  | .aad => onward aad
  | .cbw => onward cbw
  | .cwd => onward cwd
  | .shiftGroup w byCl => onward (shiftGroup w byCl)
  -- Data movement
  | .mov w toRegister => onward (mov w toRegister)
  | .movFromSegment => onward (movFromSegment opcode)
  | .movToSegment => onward (movToSegment opcode)
  | .movImmediate w n => onward (movImmediate w n)
  | .movImmediateGroup w => onward (movImmediateGroup w opcode)
  | .movAccumulator w toAccumulator => onward (movAccumulator w toAccumulator)
  | .xchg w => onward (xchg w)
  | .xchgAccumulator n => onward (xchgAccumulator n)
  | .lea => onward (lea opcode)
  | .les => onward (loadPointer .es opcode)
  | .lds => onward (loadPointer .ds opcode)
  | .lahf => onward lahf
  | .sahf => onward sahf
  | .xlat => onward xlat
  | .input w fromDx => onward (input w fromDx)
  | .output _ toDx => onward (output toDx)
  -- The stack
  | .pushRegister n => onward (pushRegister n)
  | .popRegister n => onward (popRegister n)
  | .pushSegment s => onward (pushSegment s)
  | .popSegment s => onward (popSegment s)
  | .popGroup => onward (popGroup opcode)
  | .pushf => onward pushf
  | .popf => onward popf
  -- Control transfer
  | .jumpIf condition negated => onward (jumpIf condition negated)
  | .loop kind => onward (loop kind)
  | .jcxz => onward jcxz
  | .jumpShort => onward jumpShort
  | .jumpNear => onward jumpNear
  | .jumpFar => onward jumpFar
  | .callNear => onward callNear
  | .callFar => onward callFar
  | .ret far releasing => onward (ret far releasing)
  | .int3 => raise 3
  | .int => int
  | .into => into
  | .iret => onward iret
  -- Strings
  | .string op w => onward (string op w)
  -- Flags
  | .clc => onward (change (·.setFlag .carry false))
  | .stc => onward (change (·.setFlag .carry true))
  | .cmc => onward (change fun c => { c with flags := c.flags.flip .carry })
  | .cli => onward (change (·.setFlag .interrupt false))
  | .sti => onward (change (·.setFlag .interrupt true))
  | .cld => onward (change (·.setFlag .direction false))
  | .std => onward (change (·.setFlag .direction true))
  -- Processor control
  | .wait => return .next
  -- There is no coprocessor; only its operand is taken.
  | .esc => do
    let _ ← fetchModRM
    return .next
  | .hlt => do
    change ({ · with halted := true })
    return .halted

end Action

open I8086.Runtime.Action

section

variable (r : Runtime World)

theorem attempt_setFlag (flag : Flag) (v : Bool) :
    r.attempt (change (·.setFlag flag v)) = (.ok (), r.carried (.setFlag flag v)) := rfl

theorem attempt_flipCarry :
    r.attempt (change fun c => { c with flags := c.flags.flip .carry }) =
      (.ok (), r.carried .cmc) := rfl

/-- Every handler comes to what its bytes are decoded to. -/
theorem attempt_execute {op : Opcode} (plain : op.isPrefix = false) (opcode : Byte) :
    r.attempt (execute op opcode) =
      r.completed opcode (Instruction.decode? op r.prefixes r.code) := by
  cases op with
  | segmentOverride s => cases plain
  | repeatString repetition => cases plain
  | lock => cases plain
  | alu op w toRegister =>
      have done := r.attempt_alu op w toRegister
      cases toRegister <;> exact attempt_onward done rfl
  | aluAccumulator op w => exact attempt_onward (r.attempt_aluAccumulator op w) rfl
  | aluGroup w signExtended =>
      have done := r.attempt_aluGroup w signExtended
      simp only [pastModRM, skip_skip, code_skip] at done
      cases w with
      | byte => exact attempt_onward done rfl
      | word => cases signExtended <;> exact attempt_onward done rfl
  | test w => exact attempt_onward (r.attempt_test w) rfl
  | testAccumulator w => exact attempt_onward (r.attempt_testAccumulator w) rfl
  | incRegister n => exact attempt_onward_at_once (r.attempt_increaseRegister n false) rfl
  | decRegister n => exact attempt_onward_at_once (r.attempt_increaseRegister n true) rfl
  | unaryGroup w =>
      have done := r.attempt_unaryGroup w
      simp only [pastModRM, skip_skip, code_skip, value_drop] at done
      exact done
  | stepGroup => exact r.attempt_stepGroup opcode
  | indirectGroup => exact r.attempt_indirectGroup opcode
  | daa => exact attempt_onward_at_once r.attempt_daa rfl
  | das => exact attempt_onward_at_once r.attempt_das rfl
  | aaa => exact attempt_onward_at_once r.attempt_aaa rfl
  | aas => exact attempt_onward_at_once r.attempt_aas rfl
  | aam => exact r.attempt_aam
  | aad => exact attempt_onward r.attempt_aad rfl
  | cbw => exact attempt_onward_at_once r.attempt_cbw rfl
  | cwd => exact attempt_onward_at_once r.attempt_cwd rfl
  | shiftGroup w byCl => exact attempt_onward (r.attempt_shiftGroup w byCl) rfl
  | mov w toRegister =>
      have done := r.attempt_mov w toRegister
      cases toRegister <;> exact attempt_onward done rfl
  | movFromSegment => exact r.attempt_movFromSegment opcode
  | movToSegment => exact r.attempt_movToSegment opcode
  | movImmediate w n => exact attempt_onward (r.attempt_movImmediate w n) rfl
  | movImmediateGroup w => exact r.attempt_movImmediateGroup w opcode
  | movAccumulator w toAccumulator =>
      have done := r.attempt_movAccumulator w toAccumulator
      cases toAccumulator <;> exact attempt_onward done rfl
  | xchg w => exact attempt_onward (r.attempt_xchg w) rfl
  | xchgAccumulator n => exact attempt_onward_at_once (r.attempt_xchgAccumulator n) rfl
  | lea => exact r.attempt_lea opcode
  | les => exact r.attempt_les opcode
  | lds => exact r.attempt_lds opcode
  | lahf => exact attempt_onward_at_once r.attempt_lahf rfl
  | sahf => exact attempt_onward_at_once r.attempt_sahf rfl
  | xlat => exact attempt_onward_at_once r.attempt_xlat rfl
  | input w fromDx =>
      have done := r.attempt_input w fromDx
      cases fromDx with
      | true => exact attempt_onward_at_once done rfl
      | false => exact attempt_onward done rfl
  | output w toDx =>
      have done := r.attempt_output w toDx
      cases toDx with
      | true => exact attempt_onward_at_once done rfl
      | false => exact attempt_onward done rfl
  | pushRegister n => exact attempt_onward_at_once (r.attempt_pushRegister n) rfl
  | popRegister n => exact attempt_onward_at_once (r.attempt_popRegister n) rfl
  | pushSegment s => exact attempt_onward_at_once (r.attempt_pushSegment s) rfl
  | popSegment s => exact attempt_onward_at_once (r.attempt_popSegment s) rfl
  | popGroup => exact r.attempt_popGroup opcode
  | pushf => exact attempt_onward_at_once r.attempt_pushf rfl
  | popf => exact attempt_onward_at_once r.attempt_popf rfl
  | jumpIf condition negated => exact attempt_onward (r.attempt_jumpIf condition negated) rfl
  | loop kind => exact attempt_onward (r.attempt_loop kind) rfl
  | jcxz => exact attempt_onward r.attempt_jcxz rfl
  | jumpShort => exact attempt_onward r.attempt_jumpShort rfl
  | jumpNear => exact attempt_onward r.attempt_jumpNear rfl
  | jumpFar => exact attempt_onward r.attempt_jumpFar rfl
  | callNear => exact attempt_onward r.attempt_callNear rfl
  | callFar => exact attempt_onward r.attempt_callFar rfl
  | ret far releasing =>
      have done := r.attempt_ret far releasing
      cases releasing with
      | true => exact attempt_onward done rfl
      | false => exact attempt_onward_at_once done rfl
  | int3 => exact congrArg (·.raise 3) r.skip_zero.symm
  | int => exact r.attempt_int
  | into => exact r.attempt_into.trans (congrArg (·.carryOut .into) r.skip_zero.symm)
  | iret => exact attempt_onward_at_once r.attempt_iret rfl
  | string op w => exact attempt_onward_at_once (r.attempt_string op w) rfl
  | clc => exact attempt_onward_at_once (r.attempt_setFlag .carry false) rfl
  | stc => exact attempt_onward_at_once (r.attempt_setFlag .carry true) rfl
  | cmc => exact attempt_onward_at_once r.attempt_flipCarry rfl
  | cli => exact attempt_onward_at_once (r.attempt_setFlag .interrupt false) rfl
  | sti => exact attempt_onward_at_once (r.attempt_setFlag .interrupt true) rfl
  | cld => exact attempt_onward_at_once (r.attempt_setFlag .direction false) rfl
  | std => exact attempt_onward_at_once (r.attempt_setFlag .direction true) rfl
  | wait => exact congrArg (·.carryOut .wait) r.skip_zero.symm
  | esc =>
      rw [execute, attempt_fetchModRM_bind]
      rfl
  | hlt => exact congrArg (·.carryOut .hlt) r.skip_zero.symm

end

end I8086.Runtime
