import I8086.Proofs.Access
import I8086.Proofs.Relocation

/-!
# Where instructions lead

`Instruction.flow` tells, for the state in which an instruction is executed, whether control goes
on behind it, by a distance from there, or to an offset that has nothing to do with its place. The
theorems here say that this is all that IP has to do with an instruction: executed at another
place it has the same effect, with IP moved accordingly. Only calls put IP into memory, as the
word that they leave on top of the stack.
-/

namespace I8086

/-- Where control goes when an instruction has been executed. -/
inductive Flow where
  /-- To the instruction behind it. -/
  | onward
  /-- By a distance from there. -/
  | relative (distance : Word)
  /-- To an offset that does not depend on the instruction's place. -/
  | absolute
deriving DecidableEq

/-- IP after an instruction, from the offset of its successor and from the offset to which the
instruction itself goes. -/
def Flow.ip (next target : Word) : Flow → Word
  | onward => next
  | relative d => next + d
  | absolute => target

/-- Whether ZF lets a counted loop go on. -/
def LoopKind.agrees (f : Flags) : LoopKind → Bool
  | .always => true
  | .whileZero => f.zero
  | .whileNotZero => !f.zero

namespace Instruction

/-- Where an instruction leads if it is executed in this state. An interrupt is delivered only
afterwards, so it does not show here. -/
def flow (c : Cpu) : Instruction → Flow
  | .jumpIf condition negated d =>
      if condition.holds c.flags != negated then .relative d else .onward
  | .loop kind d =>
      if c.registers.cx - 1 != 0 && kind.agrees c.flags then .relative d else .onward
  | .jcxz d => if c.registers.cx == 0 then .relative d else .onward
  | .jump d | .call d => .relative d
  | .jumpFar _ _ | .jumpTo _ | .jumpToPointer _ | .callFar _ _ | .callTo _ | .callToPointer _
  | .ret _ _ | .iret => .absolute
  | _ => .onward

/-- Calls leave the offset of their successor on top of the stack. -/
def isCall : Instruction → Bool
  | .call _ | .callFar _ _ | .callTo _ | .callToPointer _ => true
  | _ => false

end Instruction

namespace Instruction

theorem flow_relocate (i : Instruction) (c : Cpu) (a b : Word) :
    i.flow (c.relocate a b) = i.flow c := by
  cases i <;> rfl

end Instruction

namespace Cpu

variable (c : Cpu) (a b : Word)

/-! ## Families of instructions at another place -/

theorem alu_relocate (w : Width) (op : AluOp) (target : Place) (source : Source w) :
    (c.relocate a b).alu w op target source = (c.alu w op target source).relocate a b := by
  simp only [alu, flags_relocate, read_relocate, readSource_relocate, writeWithFlags_relocate]
  split <;> rfl

theorem test_relocate (w : Width) (left : Place) (right : Source w) :
    (c.relocate a b).test w left right = (c.test w left right).relocate a b := by
  simp only [test, flags_relocate, read_relocate, readSource_relocate]
  rfl

theorem mul_relocate (w : Width) (source : Place) :
    (c.relocate a b).mul w source = (c.mul w source).relocate a b := by
  simp only [mul, flags_relocate, read_relocate, accumulator_relocate, withFlags_relocate,
    setWide_relocate]

theorem imul_relocate (w : Width) (source : Place) (negated : Bool) :
    (c.relocate a b).imul w source negated = (c.imul w source negated).relocate a b := by
  simp only [imul, flags_relocate, read_relocate, accumulator_relocate, withFlags_relocate,
    setWide_relocate]

theorem divided_relocate (w : Width) (result : Option (BitVec (w.bits + w.bits))) :
    (c.relocate a b).divided w result =
      ((c.divided w result).1.relocate a b, (c.divided w result).2) := by
  cases result with
  | none => rfl
  | some v => simp only [divided, setWide_relocate]

theorem shift_relocate (w : Width) (op : ShiftOp) (target : Place) (count : ShiftCount) :
    (c.relocate a b).shift w op target count = (c.shift w op target count).relocate a b := by
  have cl := Registers.low_relocate c.registers a b (show Register.cx ≠ .ip by decide)
  cases count <;>
    simp only [shift, registers_relocate, cl, flags_relocate, read_relocate,
      writeWithFlags_relocate] <;>
    split <;> rfl

theorem xchg_relocate (w : Width) (left right : Place) :
    (c.relocate a b).xchg w left right = (c.xchg w left right).relocate a b := by
  simp only [xchg, read_relocate, write_relocate]

theorem pushPlace_relocate (source : Place) :
    (c.relocate a b).pushPlace source = (c.pushPlace source).relocate a b := by
  simp only [pushPlace, registers_relocate, Registers.sp_relocate, read_relocate, push_relocate]
  split <;> rfl

theorem popPlace_relocate (target : Place) :
    (c.relocate a b).popPlace target = (c.popPlace target).relocate a b := by
  simp only [popPlace, registers_relocate, Place.resolve_relocate, fst_pop_relocate,
    snd_pop_relocate, writeOperand_relocate]

theorem stringElement_relocate (w : Width) (op : StringOp) (source : Segment) :
    (c.relocate a b).stringElement w op source = (c.stringElement w op source).relocate a b := by
  have advanceSource (d : Cpu) : (d.relocate a b).advanceSource w =
      (d.advanceSource w).relocate a b := rfl
  have advanceTarget (d : Cpu) : (d.relocate a b).advanceTarget w =
      (d.advanceTarget w).relocate a b := rfl
  have compare (x y : w.Value) : (c.relocate a b).compare x y = (c.compare x y).relocate a b := rfl
  cases op <;>
    simp only [stringElement, registers_relocate, Registers.si_relocate, Registers.di_relocate,
      Registers.read_relocate, load_relocate, store_relocate, writeOperand_relocate, compare,
      advanceSource, advanceTarget]

theorem stringElements_relocate (w : Width) (op : StringOp) (source : Segment) (r : Repetition)
    (count : Nat) :
    stringElements w op source r count (c.relocate a b) =
      (stringElements w op source r count c).relocate a b := by
  induction count generalizing c with
  | zero => rfl
  | succ count ih =>
      simp only [stringElements_succ, stringElement_relocate, registers_relocate,
        Registers.cx_relocate, setRegister_relocate _ a b (show Register.cx ≠ .ip by decide),
        flags_relocate, ih]
      split <;> rfl

theorem string_relocate (w : Width) (op : StringOp) (source : Segment)
    (repetition : Option Repetition) :
    (c.relocate a b).string w op source repetition =
      (c.string w op source repetition).relocate a b := by
  cases repetition with
  | none => exact stringElement_relocate c a b w op source
  | some r => exact stringElements_relocate c a b w op source r c.registers.cx.toNat

/-! ## Jumps and calls at another place -/

theorem jumpWhen_relocate (taken : Bool) (d : Word) :
    (c.relocate a b).jumpWhen taken d =
      (c.jumpWhen taken d).relocate (if taken then a + d else a) b := by
  cases taken <;> rfl

theorem loop_eq (kind : LoopKind) (d : Word) :
    c.loop kind d =
      (c.setRegister .cx (c.registers.cx - 1)).jumpWhen
        (c.registers.cx - 1 != 0 && kind.agrees c.flags) d := by
  cases kind <;> rfl

theorem loop_relocate (kind : LoopKind) (d : Word) :
    (c.relocate a b).loop kind d =
      (c.loop kind d).relocate
        (if c.registers.cx - 1 != 0 && kind.agrees c.flags then a + d else a) b := by
  simp only [loop_eq, registers_relocate, Registers.cx_relocate, flags_relocate,
    setRegister_relocate c a b (show Register.cx ≠ .ip by decide), jumpWhen_relocate]

theorem ret_relocate (far : Bool) (release : Word) :
    (c.relocate a b).ret far release =
      (c.ret far release).relocate (c.ret far release).registers.ip b := by
  cases far <;> rfl

/-- A near call at another place leaves another return address. -/
theorem call_relocate (ip : Word) :
    (c.relocate a b).call ip =
      ((c.call ip).writeWord .ss (c.registers.sp - 2) a).relocate ip b := by
  have pushed := writeWord_push c c.registers.ip a
  simp only [call, jump_eq, registers_relocate, Registers.ip_relocate, Registers.opIp_relocate,
    push_relocate, writeWord_relocate, relocate_relocate, pushed]

/-- A far call pushes CS, which does not depend on the place, before the return address. -/
theorem callFar_relocate (cs ip : Word) :
    (c.relocate a b).callFar cs ip =
      ((c.callFar cs ip).writeWord .ss (c.registers.sp - 2 - 2) a).relocate ip b := by
  have pushed := writeWord_push (c.push c.registers.cs) c.registers.ip a
  have jumpFar (d : Cpu) (sp : Word) : (d.jumpFar cs ip).writeWord .ss sp a =
      (d.writeWord .ss sp a).jumpFar cs ip := rfl
  rw [sp_push] at pushed
  simp only [callFar, registers_relocate, Registers.ip_relocate, Registers.cs_relocate,
    push_relocate, jumpFar, pushed]
  rfl

/-! ## All instructions -/

/-- An instruction that is no call does the same at another place, and IP ends where its flow
says. -/
theorem execute_relocate {i : Instruction} (notCall : i.isCall = false) :
    (c.relocate a b).execute i =
      ((c.execute i).1.relocate ((i.flow c).ip a (c.execute i).1.registers.ip) b,
        (c.execute i).2) := by
  cases i with
  | call | callFar | callTo | callToPointer => cases notCall
  | jumpIf condition negated d =>
      simp only [execute, Instruction.flow, flags_relocate, jumpWhen_relocate]
      split <;> rfl
  | loop kind d =>
      simp only [execute, Instruction.flow, loop_relocate]
      split <;> rfl
  | jcxz d =>
      simp only [execute, Instruction.flow, registers_relocate, Registers.cx_relocate,
        jumpWhen_relocate]
      split <;> rfl
  | jump d => rfl
  | jumpFar cs ip => rfl
  | jumpTo target =>
      simp only [execute, read_relocate]
      rfl
  | jumpToPointer e =>
      simp only [execute, readPointer_relocate]
      rfl
  | ret far release =>
      simp only [execute, ret_relocate]
      rfl
  | iret => rfl
  | input w port =>
      cases port <;> simp [execute, Instruction.flow, Flow.ip, Port.number]
  | movToSegment s source =>
      simp [execute, Instruction.flow, Flow.ip, setRegister_relocate _ _ _ s.register_ne_ip]
  | popSegment s =>
      simp [execute, Instruction.flow, Flow.ip, setRegister_relocate _ _ _ s.register_ne_ip]
  | lea n e =>
      simp [execute, Instruction.flow, Flow.ip, e.offset_relocate,
        setRegister_relocate _ _ _ n.register_ne_ip]
  | loadPointer s n e =>
      simp [execute, Instruction.flow, Flow.ip, setRegister_relocate _ _ _ s.register_ne_ip,
        setRegister_relocate _ _ _ n.register_ne_ip]
  | xlat s =>
      have low := Registers.low_relocate c.registers a b (show Register.ax ≠ .ip by decide)
      simp only [execute, registers_relocate, low, Registers.bx_relocate, readByte_relocate]
      rfl
  | aam base =>
      simp only [execute, registers_relocate, Registers.ax_relocate, flags_relocate]
      split <;> rfl
  | daa | das | aaa | aas | aad | cbw | cwd | lahf | sahf | popf | output | interrupt | into
  | setFlag | cmc | wait | esc | hlt => rfl
  | _ =>
      simp [execute, Instruction.flow, Flow.ip, alu_relocate, test_relocate, mul_relocate,
        imul_relocate, divided_relocate, shift_relocate, xchg_relocate, pushPlace_relocate,
        popPlace_relocate, string_relocate]

/-- A call at another place differs in the return address on top of the stack as well. -/
theorem execute_relocate_of_isCall {i : Instruction} (isCall : i.isCall = true) :
    (c.relocate a b).execute i =
      (((c.execute i).1.writeWord .ss (c.execute i).1.registers.sp a).relocate
        ((i.flow c).ip a (c.execute i).1.registers.ip) b, .next) := by
  cases i with
  | call d => simp only [execute, registers_relocate, Registers.ip_relocate, call_relocate]; rfl
  | callFar cs ip => simp only [execute, callFar_relocate]; rfl
  | callTo target => simp only [execute, read_relocate, call_relocate]; rfl
  | callToPointer e => simp only [execute, readPointer_relocate, callFar_relocate]; rfl
  | _ => cases isCall

/-! ## Where execution stands afterwards -/

/-- IP after an instruction that is no call, which starts with IP behind it. -/
theorem ip_execute {i : Instruction} (notCall : i.isCall = false) :
    (c.execute i).1.registers.ip =
      (i.flow c).ip c.registers.ip (c.execute i).1.registers.ip := by
  have own := execute_relocate c c.registers.ip c.registers.opIp notCall
  rw [relocate_self] at own
  exact congrArg (·.1.registers.ip) own

/-- IP after a call. -/
theorem ip_execute_of_isCall {i : Instruction} (isCall : i.isCall = true) :
    (c.execute i).1.registers.ip =
      (i.flow c).ip c.registers.ip (c.execute i).1.registers.ip := by
  have own := execute_relocate_of_isCall c c.registers.ip c.registers.opIp isCall
  rw [relocate_self] at own
  exact congrArg (·.1.registers.ip) own

theorem signal_of_isCall {i : Instruction} (isCall : i.isCall = true) :
    (c.execute i).2 = .next := by
  have own := execute_relocate_of_isCall c c.registers.ip c.registers.opIp isCall
  rw [relocate_self] at own
  exact congrArg Prod.snd own

/-- A call leaves IP as it was, behind the call, on top of the stack. -/
theorem readWord_execute_of_isCall {i : Instruction} (isCall : i.isCall = true) :
    (c.execute i).1.readWord .ss (c.execute i).1.registers.sp = c.registers.ip := by
  have own := execute_relocate_of_isCall c c.registers.ip c.registers.opIp isCall
  rw [relocate_self] at own
  have top := congrArg (fun r => r.1.readWord .ss (c.execute i).1.registers.sp) own
  simp only [readWord_relocate, readWord_writeWord] at top
  exact top

/-- Whatever asks for an interrupt lets control go on behind it. -/
theorem flow_of_interrupt {i : Instruction} {vector : Byte}
    (asks : (c.execute i).2 = .interrupt vector) : i.flow c = .onward := by
  cases i with
  | jumpIf | loop | jcxz | jump | call | jumpFar | jumpTo | jumpToPointer | callFar | callTo
  | callToPointer | ret | iret => cases asks
  | _ => rfl

/-- The place of an instruction has no part in what it asks for. -/
theorem snd_execute_relocate (i : Instruction) :
    ((c.relocate a b).execute i).2 = (c.execute i).2 := by
  cases isCall : i.isCall with
  | true => rw [execute_relocate_of_isCall c a b isCall, signal_of_isCall c isCall]
  | false => rw [execute_relocate c a b isCall]

/-- What asks for an interrupt has changed nothing but flags. -/
theorem execute_of_interrupt {i : Instruction} {vector : Byte}
    (asks : (c.execute i).2 = .interrupt vector) :
    (c.execute i).1 = { c with flags := (c.execute i).1.flags } := by
  cases i with
  | div w source =>
      simp only [execute, divided] at asks ⊢
      split at asks
      · cases asks
      · rfl
  | idiv w source negated =>
      simp only [execute, divided] at asks ⊢
      split at asks
      · cases asks
      · rfl
  | aam base =>
      simp only [execute] at asks ⊢
      split at asks
      · cases asks
      · rfl
  | interrupt | into => rfl
  | _ => cases asks

/-- What asks for an interrupt has written nothing to memory. -/
theorem memory_of_interrupt {i : Instruction} {vector : Byte}
    (asks : (c.execute i).2 = .interrupt vector) : (c.execute i).1.memory = c.memory := by
  rw [execute_of_interrupt c asks]

/-! ## Interrupt routines -/

/-- Entering a routine from another place leaves another return address. -/
theorem enterInterrupt_relocate (cs ip : Word) :
    (c.relocate a b).enterInterrupt cs ip =
      ((c.enterInterrupt cs ip).writeWord .ss (c.enterInterrupt cs ip).registers.sp a).relocate
        ip b := by
  simp only [enterInterrupt, flags_relocate, push_relocate, withFlags_relocate, callFar_relocate]
  rfl

/-- Entering a routine leaves the interrupted place on top of the stack. -/
theorem readWord_enterInterrupt (cs ip : Word) :
    (c.enterInterrupt cs ip).readWord .ss (c.enterInterrupt cs ip).registers.sp =
      c.registers.ip := by
  have own := enterInterrupt_relocate c c.registers.ip c.registers.opIp cs ip
  rw [relocate_self] at own
  have top := congrArg (fun d => d.readWord .ss (c.enterInterrupt cs ip).registers.sp) own
  simp only [readWord_relocate, readWord_writeWord] at top
  exact top

end Cpu

end I8086
