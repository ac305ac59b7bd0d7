import I8086.Proofs.Action.Arithmetic

/-!
# Transfers of control and strings, one change after the other

The handlers of the opcodes that jump, call, return and repeat. A repeated string operation runs to
its end within its handler.
-/

namespace I8086.Runtime

variable {World : Type}

namespace Action

/-! ## Jumps -/

/-- Takes a distance of one byte and jumps by it on demand. -/
def shortJumpIf (taken : Bool) : Action World Unit := do
  let distance ← fetchByte
  if taken then change (·.advance distance.signExtend)

/-- 70-7F: jumps if a condition is met. -/
def jumpIf (condition : Condition) (negated : Bool) : Action World Unit := do
  let taken ← inspect fun c => condition.holds c.flags != negated
  shortJumpIf taken

/-- E0-E2: counts CX down, and jumps while it is not zero and ZF agrees. -/
def loop (kind : LoopKind) : Action World Unit := do
  let cx ← inspect (·.registers.cx - 1)
  change (·.setRegister .cx cx)
  let zero ← inspect (·.flags.zero)
  let agrees := match kind with
    | .always => true
    | .whileZero => zero
    | .whileNotZero => !zero
  shortJumpIf (cx != 0 && agrees)

/-- E3: jumps if CX is zero. -/
def jcxz : Action World Unit := do
  let taken ← inspect (·.registers.cx == 0)
  shortJumpIf taken

/-- EB: jumps by a distance of one byte. -/
def jumpShort : Action World Unit := shortJumpIf true

/-- E9: jumps by a distance of one word. -/
def jumpNear : Action World Unit := do
  let distance ← fetchWord
  change (·.advance distance)

/-- EA: jumps to another code segment. -/
def jumpFar : Action World Unit := do
  let ip ← fetchWord
  let cs ← fetchWord
  change (·.jumpFar cs ip)

/-! ## Calls and returns -/

/-- E8: calls by a distance. -/
def callNear : Action World Unit := do
  let distance ← fetchWord
  let back ← inspect (·.registers.ip)
  push back
  change (·.advance distance)

/-- Pushes CS and IP and continues in another code segment. -/
def farCall (cs ip : Word) : Action World Unit := do
  let backSegment ← inspect (·.registers.cs)
  push backSegment
  let back ← inspect (·.registers.ip)
  push back
  change (·.jumpFar cs ip)

/-- 9A: calls another code segment. -/
def callFar : Action World Unit := do
  let ip ← fetchWord
  let cs ← fetchWord
  farCall cs ip

/-- Opcodes C2, C3, CA and CB: returns, and releases bytes of the stack. -/
def ret (far releasing : Bool) : Action World Unit := do
  let release ← if releasing then fetchWord else pure 0
  let ip ← pop
  change (·.jump ip)
  if far then
    let cs ← pop
    change (·.setRegister .cs cs)
  change fun c => c.setRegister .sp (c.registers.sp + release)

/-- CF: returns from an interrupt. -/
def iret : Action World Unit := do
  let ip ← pop
  let cs ← pop
  let flags ← pop
  change (·.jumpFar cs ip)
  setFlags (.unpack flags)

/-- CD: raises the interrupt that the instruction names. -/
def int : Action World Step := do
  let vector ← fetchByte
  raise vector

/-- CE: raises an interrupt if OF is set. -/
def into : Action World Step := do
  if ← inspect (·.flags.overflow) then raise overflowVector
  else return .next

/-! ## The group FF -/

/-- Segment and offset of the far pointer at an operand in memory. -/
def farPointer (operand : Operand) (opcode : Byte) : Action World (Word × Word) :=
  match operand with
  | .memory segment offset => do
    let ip ← inspect (·.readWord segment offset)
    let cs ← inspect (·.readWord segment (offset + 2))
    return (cs, ip)
  | .register _ => illegal opcode

/-- Pushes an operand. SP is pushed as it is afterwards. -/
def pushOperand (operand : Operand) : Action World Unit := do
  if operand = .register .stackPointer then
    let sp ← inspect (·.registers.sp - 2)
    change (·.setRegister .sp sp)
    change (·.writeWord .ss sp sp)
  else
    let v ← readOperand .word operand
    push v

/-- FF: one more or one less in a word, calls and jumps to where an operand says, and a push.
Register field 7 has no meaning. -/
def indirectGroup (opcode : Byte) : Action World Unit := do
  let (reg, operand) ← fetchModRM
  match reg with
  | 0 | 1 =>
    let v ← readOperand .word operand
    let result ← increase (reg.val == 1) v
    writeOperand .word operand result
  | 2 =>
    let target ← readOperand .word operand
    let back ← inspect (·.registers.ip)
    push back
    change (·.jump target)
  | 3 =>
    let (cs, ip) ← farPointer operand opcode
    farCall cs ip
  | 4 =>
    let target ← readOperand .word operand
    change (·.jump target)
  | 5 =>
    let (cs, ip) ← farPointer operand opcode
    change (·.jumpFar cs ip)
  | 6 => pushOperand operand
  | 7 => illegal opcode

/-! ## Strings -/

/-- Moves SI, or DI, to the next element. -/
def advanceSource (w : Width) : Action World Unit := change (·.advanceSource w)

@[inherit_doc advanceSource]
def advanceTarget (w : Width) : Action World Unit := change (·.advanceTarget w)

/-- One element of a string operation. -/
def element (op : StringOp) (w : Width) : Action World Unit := do
  let source ← dataSegment
  let si ← inspect (·.registers.si)
  let di ← inspect (·.registers.di)
  match op with
  | .movs =>
    let v ← inspect (·.load w source si)
    change (·.store w .es di v)
  | .cmps =>
    let x ← inspect (·.load w source si)
    let y ← inspect (·.load w .es di)
    let _ ← apply .cmp x y
  | .stos =>
    let v ← readRegister w .accumulator
    change (·.store w .es di v)
  | .lods =>
    let v ← inspect (·.load w source si)
    writeRegister w .accumulator v
  | .scas =>
    let x ← readRegister w .accumulator
    let y ← inspect (·.load w .es di)
    let _ ← apply .cmp x y
  if op matches .movs | .cmps | .lods then advanceSource w
  unless op matches .lods do advanceTarget w

/-- Elements while CX is not zero, at most `room` of them, and CX counts down. A comparison with the
other outcome than the prefix asks for is the last one. -/
def elements (op : StringOp) (w : Width) (r : Repetition) : (room : Nat) → Action World Unit
  | 0 => return
  | room + 1 => do
    let cx ← inspect (·.registers.cx)
    if cx = 0 then return
    element op w
    change fun c => c.setRegister .cx (c.registers.cx - 1)
    let zero ← inspect (·.flags.zero)
    if op.compares && !r.continues zero then return
    elements op w r room

/-- A4-A7, AA-AF: a string operation, repeated if a prefix says so. -/
def string (op : StringOp) (w : Width) : Action World Unit := do
  match (← get).repetition with
  | none => element op w
  | some r => elements op w r 0x10000

end Action

open I8086.Runtime.Action

/-! ## What the handlers come to -/

section

variable (r : Runtime World)

theorem attempt_shortJumpIf (taken : Bool) :
    r.attempt (shortJumpIf taken) =
      (.ok (), { r with cpu := (r.skip 1).cpu.jumpWhen taken (r.code 0).signExtend }) := by
  rw [shortJumpIf, attempt_fetchByte_bind]
  cases taken <;> rfl

theorem attempt_jumpIf (condition : Condition) (negated : Bool) :
    r.attempt (jumpIf condition negated) =
      (.ok (), (r.skip 1).carried (.jumpIf condition negated (r.code 0).signExtend)) := by
  rw [jumpIf, attempt_inspect_bind, attempt_shortJumpIf]
  rfl

/-- CX is counted down before the distance is taken. -/
theorem attempt_loop (kind : LoopKind) :
    r.attempt (loop kind) = (.ok (), (r.skip 1).carried (.loop kind (r.code 0).signExtend)) := by
  rw [loop, attempt_inspect_bind, attempt_change_bind, attempt_inspect_bind, attempt_shortJumpIf]
  cases kind <;> rfl

theorem attempt_jcxz :
    r.attempt jcxz = (.ok (), (r.skip 1).carried (.jcxz (r.code 0).signExtend)) := by
  rw [jcxz, attempt_inspect_bind, attempt_shortJumpIf]
  rfl

theorem attempt_jumpShort :
    r.attempt jumpShort = (.ok (), (r.skip 1).carried (.jump (r.code 0).signExtend)) := by
  rw [jumpShort, attempt_shortJumpIf]
  rfl

theorem attempt_jumpNear :
    r.attempt jumpNear = (.ok (), (r.skip 2).carried (.jump (r.code.word 0))) := by
  rw [jumpNear, attempt_fetchWord_bind]
  rfl

/-- Offset and segment follow each other in the instruction stream. -/
theorem attempt_fetchPointer_bind {α : Type} (next : Word → Word → Action World α) :
    r.attempt (do
      let ip ← fetchWord
      let cs ← fetchWord
      next ip cs) = (r.skip 4).attempt (next (r.code.word 0) (r.code.word 2)) := by
  rw [attempt_fetchWord_bind, attempt_fetchWord_bind, skip_skip, code_skip]
  rfl

theorem attempt_jumpFar :
    r.attempt jumpFar =
      (.ok (), (r.skip 4).carried (.jumpFar (r.code.word 2) (r.code.word 0))) := by
  rw [jumpFar, attempt_fetchPointer_bind]
  rfl

theorem attempt_callNear :
    r.attempt callNear = (.ok (), (r.skip 2).carried (.call (r.code.word 0))) := by
  rw [callNear, attempt_fetchWord_bind]
  rfl

theorem attempt_callFar :
    r.attempt callFar =
      (.ok (), (r.skip 4).carried (.callFar (r.code.word 2) (r.code.word 0))) := by
  rw [callFar, attempt_fetchPointer_bind]
  rfl

theorem attempt_ret (far releasing : Bool) :
    r.attempt (ret far releasing) =
      (.ok (), if releasing then (r.skip 2).carried (.ret far (r.code.word 0))
        else r.carried (.ret far 0)) := by
  cases releasing with
  | false => cases far <;> rfl
  | true =>
      rw [ret, if_pos rfl, attempt_fetchWord_bind]
      cases far <;> rfl

theorem attempt_iret : r.attempt iret = (.ok (), r.carried .iret) := rfl

theorem attempt_int : r.attempt int = (r.skip 1).carryOut (.interrupt (r.code 0)) := by
  rw [int, attempt_fetchByte_bind]
  rfl

theorem attempt_into : r.attempt into = r.carryOut .into := by
  rw [into, attempt_inspect_bind, carryOut, Cpu.execute]
  dsimp only
  cases r.cpu.flags.overflow <;> rfl

/-- An operand is SP if its place is. -/
theorem resolve_eq_stackPointer (p : Place) :
    p.resolve r.cpu.registers = .register .stackPointer ↔ p = .register .stackPointer := by
  cases p with
  | register n =>
      exact ⟨fun same => congrArg Place.register (Operand.register.inj same),
        fun same => congrArg Operand.register (Place.register.inj same)⟩
  | memory a => exact ⟨nofun, nofun⟩

theorem attempt_pushOperand (p : Place) :
    r.attempt (pushOperand (p.resolve r.cpu.registers)) = (.ok (), r.carried (.push p)) := by
  by_cases stackPointer : p = .register .stackPointer
  · subst stackPointer
    rfl
  · have other := mt (r.resolve_eq_stackPointer p).mp stackPointer
    rw [pushOperand, if_neg other, carried, Cpu.execute, Cpu.pushPlace, if_neg stackPointer]
    rfl

theorem attempt_indirectGroup (opcode : Byte) :
    r.attempt (onward (indirectGroup opcode)) =
      r.completed opcode (r.selected .indirectGroup) := by
  refine (r.attempt_onward_fetchModRM _).trans ?_
  unfold selected
  match r.field with
  | 6 => exact attempt_onward (r.pastModRM.attempt_pushOperand r.place) rfl
  | 0 | 1 | 2 | 3 | 4 | 5 | 7 => cases r.place <;> rfl

/-! ### Strings -/

theorem attempt_element (op : StringOp) (w : Width) :
    r.attempt (element op w) =
      (.ok (), { r with cpu := r.cpu.stringElement w op r.prefixes.dataSegment }) := by
  cases op <;> rfl

/-- Only the repetition counts. -/
theorem cx_stringElement (c : Cpu) (w : Width) (op : StringOp) (source : Segment) :
    (c.stringElement w op source).registers.cx = c.registers.cx := by
  cases op <;> cases w <;> rfl

/-- CX says how many elements there are at most, so room for as many as CX can count is enough. -/
theorem attempt_elements (op : StringOp) (w : Width) (repetition : Repetition) {room : Nat}
    (enough : r.cpu.registers.cx.toNat ≤ room) :
    r.attempt (elements op w repetition room) =
      (.ok (), { r with
        cpu := Cpu.stringElements w op r.prefixes.dataSegment repetition
          r.cpu.registers.cx.toNat r.cpu }) := by
  induction room generalizing r with
  | zero =>
      rw [Nat.le_zero.mp enough]
      rfl
  | succ room ih =>
      rw [elements, attempt_inspect_bind]
      by_cases empty : r.cpu.registers.cx = 0
      · rw [if_pos empty, empty]
        rfl
      · let c := r.cpu.stringElement w op r.prefixes.dataSegment
        let d := c.setRegister .cx (c.registers.cx - 1)
        have cx : d.registers.cx = r.cpu.registers.cx - 1 :=
          congrArg (· - 1) (cx_stringElement _ w op _)
        have left : r.cpu.registers.cx.toNat = d.registers.cx.toNat + 1 := by
          rw [cx]
          bv_omega
        rw [if_neg empty, attempt_bind_of_ok (r.attempt_element op w), attempt_change_bind,
          attempt_inspect_bind, left, Cpu.stringElements_succ]
        dsimp only
        split
        · rfl
        · exact ih { r with cpu := d } (show d.registers.cx.toNat ≤ room by omega)

theorem attempt_string (op : StringOp) (w : Width) :
    r.attempt (string op w) =
      (.ok (), r.carried (.string w op r.prefixes.dataSegment r.prefixes.repetition)) := by
  have chosen : r.attempt (string op w) =
      r.attempt (match r.prefixes.repetition with
        | none => element op w
        | some repetition => elements op w repetition 0x10000) := rfl
  rw [chosen]
  cases r.prefixes.repetition with
  | none => exact r.attempt_element op w
  | some repetition =>
      have enough : r.cpu.registers.cx.toNat ≤ 0x10000 := Nat.le_of_lt (BitVec.isLt _)
      exact r.attempt_elements op w repetition enough

end

end I8086.Runtime
