import I8086.Proofs.Fetch
import I8086.Proofs.Relocation

/-!
# Changing a runtime bit by bit

`Machine.step` reads prefixes and an instruction off the bytes at `CS:IP` and then carries the
instruction out at once. Nothing but the bytes it has read decides what the instruction is, and an
encoding that is not defined is given up before anything happens. A `Runtime` is changed by an
`Action` in the order in which an interpreter works: it takes a byte and moves IP, takes more bytes
as the handler of the opcode asks for them, reads and writes registers and memory, and may fail at
any point. What it has changed by then stays changed.

A runtime has three fields for its prefixes, which could hold anything: whether a run of prefixes
goes on in the next step, and the segment and the repetition that have been asked for.
-/

namespace I8086

/-- A machine whose prefixes are kept in three fields. -/
structure Runtime (World : Type) where
  cpu : Cpu := {}
  world : World
  bus : Bus (Handler World) := .empty
  /-- The segment that the prefixes read so far ask for. -/
  segmentOverride : Option Segment := none
  /-- The repetition that the prefixes read so far ask for. -/
  repetition : Option Repetition := none
  /-- Whether the last step has read prefixes and nothing else. -/
  prefixPending : Bool := false
  count : Nat := 0
  tracing : Bool := false

namespace Runtime

variable {World : Type} {α β : Type}

/-- Everything but the three fields. -/
def machine (r : Runtime World) : Machine World :=
  { cpu := r.cpu, world := r.world, bus := r.bus, count := r.count, tracing := r.tracing }

/-- The three fields with everything else from a machine. -/
def withMachine (r : Runtime World) (m : Machine World) : Runtime World :=
  { r with cpu := m.cpu, world := m.world, bus := m.bus, count := m.count, tracing := m.tracing }

/-- What the prefixes read so far ask for. -/
def prefixes (r : Runtime World) : Prefixes := ⟨r.segmentOverride, r.repetition⟩

/-- Replaces what the prefixes ask for. -/
def withPrefixes (r : Runtime World) (p : Prefixes) : Runtime World :=
  { r with segmentOverride := p.segment, repetition := p.repetition }

/-- Clears the three fields. -/
def clearPrefixes (r : Runtime World) : Runtime World :=
  { r with segmentOverride := none, repetition := none, prefixPending := false }

/-- Delivers an interrupt. -/
def raise (r : Runtime World) (vector : Byte) : Except Fault Step × Runtime World :=
  ((r.machine.raise vector).1, r.withMachine (r.machine.raise vector).2)

/-- The bytes at `CS:IP`. -/
def code (r : Runtime World) : Code := r.machine.code

/-- The runtime with IP moved past so many bytes. -/
def skip (r : Runtime World) (n : Nat) : Runtime World :=
  { r with cpu := r.cpu.advance (BitVec.ofNat 16 n) }

@[simp] theorem code_skip (r : Runtime World) (n : Nat) : (r.skip n).code = r.code.drop n :=
  r.machine.code_skip n

@[simp] theorem skip_skip (r : Runtime World) (j k : Nat) : (r.skip j).skip k = r.skip (j + k) :=
  congrArg (fun cpu => { r with cpu }) (Machine.advance_advance r.cpu j k)

@[simp] theorem skip_zero (r : Runtime World) : r.skip 0 = r := by
  have stays : r.cpu.advance (BitVec.ofNat 16 0) = r.cpu := by
    have ip : r.cpu.registers.ip + BitVec.ofNat 16 0 = r.cpu.registers.ip := BitVec.add_zero _
    rw [Cpu.advance, ip]
  rw [skip, stays]

/-! ## Actions -/

/-- Something that changes a runtime and may fail. What it has changed by then stays changed. -/
abbrev Action (World : Type) := ExceptT Fault (StateM (Runtime World))

/-- What an action returns, and the runtime that it leaves. -/
def attempt (r : Runtime World) (action : Action World α) : Except Fault α × Runtime World :=
  action.run.run r

namespace Action

/-- Reads from the processor. -/
def inspect (f : Cpu → α) : Action World α := return f (← get).cpu

/-- Changes the processor. -/
def change (f : Cpu → Cpu) : Action World Unit := modify fun r => { r with cpu := f r.cpu }

/-- Takes something from the processor, which changes it. -/
def take (f : Cpu → α × Cpu) : Action World α := do
  let r ← get
  let (a, cpu) := f r.cpu
  set { r with cpu }
  return a

/-- Reports an illegal instruction, with the place where it began. -/
def illegal (opcode : Byte) : Action World α := do
  let c ← inspect id
  throw (.illegalInstruction opcode c.registers.cs c.registers.opIp)

/-- Delivers an interrupt. -/
def raise (vector : Byte) : Action World Step := ExceptT.mk fun r => r.raise vector

/-- Goes on behind the instruction. -/
def onward (action : Action World Unit) : Action World Step := do
  action
  return .next

/-! ### The instruction stream -/

/-- Takes one byte at `CS:IP`. -/
def fetchByte : Action World Byte := take Cpu.fetchByte

/-- Takes one word at `CS:IP`. -/
def fetchWord : Action World Word := take Cpu.fetchWord

/-- Takes one value at `CS:IP`, in either width. -/
def fetch : (w : Width) → Action World w.Value
  | .byte => fetchByte
  | .word => fetchWord

/-- Takes a ModR/M byte and its displacement at `CS:IP`: the register field, and the operand. -/
def fetchModRM : Action World (RegisterNumber × Operand) := do
  let r ← get
  let (m, operand, cpu) := r.cpu.fetchModRM r.segmentOverride
  set { r with cpu }
  return (m.reg, operand)

/-! ### Operands -/

/-- The segment of data that lie in the data segment by default. -/
def dataSegment : Action World Segment := return (← get).segmentOverride.getD .ds

/-- Whether a repeat prefix of either kind is present. -/
def repeats : Action World Bool := return (← get).repetition.isSome

/-- The value of an operand. -/
def readOperand (w : Width) (o : Operand) : Action World w.Value :=
  inspect (·.readOperand w o)

/-- Replaces the value of an operand. -/
def writeOperand (w : Width) (o : Operand) (v : w.Value) : Action World Unit :=
  change (·.writeOperand w v o)

/-- The value of a register. -/
def readRegister (w : Width) (n : RegisterNumber) : Action World w.Value :=
  inspect (·.registers.read w n)

/-- Replaces the value of a register. -/
def writeRegister (w : Width) (n : RegisterNumber) (v : w.Value) : Action World Unit :=
  change fun c => { c with registers := c.registers.write w n v }

/-- Replaces the flags. -/
def setFlags (flags : Flags) : Action World Unit := change ({ · with flags })

/-- Pushes a word. -/
def push (v : Word) : Action World Unit := change (·.push v)

/-- Pops a word. -/
def pop : Action World Word := take Cpu.pop

end Action

open I8086.Runtime.Action

/-! ## What actions do -/

section

variable (r : Runtime World)

@[simp] theorem attempt_pure (a : α) : r.attempt (pure a : Action World α) = (.ok a, r) := rfl

/-- An action that succeeds is followed by the next one, on the runtime that it leaves. One that
fails is the last. -/
theorem attempt_bind (first : Action World α) (next : α → Action World β) :
    r.attempt (first >>= next) =
      match r.attempt first with
      | (.ok a, r) => r.attempt (next a)
      | (.error fault, r) => (.error fault, r) := by
  unfold attempt
  simp only [ExceptT.run_bind, StateT.run_bind]
  rcases first.run.run r with ⟨_ | _, _⟩ <;> rfl

theorem attempt_bind_of_ok {r s : Runtime World} {first : Action World α} {a : α}
    (done : r.attempt first = (.ok a, s)) (next : α → Action World β) :
    r.attempt (first >>= next) = s.attempt (next a) := by
  rw [attempt_bind, done]

theorem attempt_bind_of_error {r s : Runtime World} {first : Action World α} {fault : Fault}
    (failed : r.attempt first = (.error fault, s)) (next : α → Action World β) :
    r.attempt (first >>= next) = (.error fault, s) := by
  rw [attempt_bind, failed]

theorem attempt_modify (f : Runtime World → Runtime World) :
    r.attempt (modify f : Action World Unit) = (.ok (), f r) := rfl

@[simp] theorem attempt_change (f : Cpu → Cpu) :
    r.attempt (change f) = (.ok (), { r with cpu := f r.cpu }) := rfl

@[simp] theorem attempt_raise (vector : Byte) :
    r.attempt (Action.raise vector) = r.raise vector := rfl

@[simp] theorem attempt_illegal (opcode : Byte) :
    r.attempt (illegal opcode : Action World α) =
      (.error (.illegalInstruction opcode r.cpu.registers.cs r.cpu.registers.opIp), r) := rfl

@[simp] theorem attempt_illegal_bind (opcode : Byte) (next : α → Action World β) :
    r.attempt (illegal opcode >>= next) =
      (.error (.illegalInstruction opcode r.cpu.registers.cs r.cpu.registers.opIp), r) := rfl

@[simp] theorem attempt_inspect_bind (f : Cpu → α) (next : α → Action World β) :
    r.attempt (inspect f >>= next) = r.attempt (next (f r.cpu)) := rfl

@[simp] theorem attempt_change_bind (f : Cpu → Cpu) (next : Unit → Action World β) :
    r.attempt (change f >>= next) = { r with cpu := f r.cpu }.attempt (next ()) := rfl

@[simp] theorem attempt_take_bind (f : Cpu → α × Cpu) (next : α → Action World β) :
    r.attempt (take f >>= next) = { r with cpu := (f r.cpu).2 }.attempt (next (f r.cpu).1) := rfl

@[simp] theorem attempt_readOperand_bind (w : Width) (o : Operand)
    (next : w.Value → Action World β) :
    r.attempt (readOperand w o >>= next) = r.attempt (next (r.cpu.readOperand w o)) := rfl

@[simp] theorem attempt_dataSegment_bind (next : Segment → Action World β) :
    r.attempt (dataSegment >>= next) = r.attempt (next r.prefixes.dataSegment) := rfl

@[simp] theorem attempt_repeats_bind (next : Bool → Action World β) :
    r.attempt (repeats >>= next) = r.attempt (next r.prefixes.repeats) := rfl

end

/-! ## What stands at IP -/

section

variable (r : Runtime World)

/-- The first byte is the one at IP itself. -/
theorem code_zero : r.code 0 = r.cpu.readByte .cs r.cpu.registers.ip :=
  congrArg (r.cpu.readByte .cs) (BitVec.add_zero _)

theorem code_word_zero : r.code.word 0 = r.cpu.readWord .cs r.cpu.registers.ip :=
  congrArg (Word.ofBytes · (r.cpu.readByte .cs (r.cpu.registers.ip + 1))) r.code_zero

theorem attempt_fetchByte : r.attempt fetchByte = (.ok (r.code 0), r.skip 1) := by
  rw [code_zero]
  rfl

theorem attempt_fetchWord : r.attempt fetchWord = (.ok (r.code.word 0), r.skip 2) := by
  rw [code_word_zero]
  rfl

theorem attempt_fetch (w : Width) :
    r.attempt (fetch w) = (.ok (r.code.value w 0), r.skip w.bytes) := by
  cases w with
  | byte => exact r.attempt_fetchByte
  | word => exact r.attempt_fetchWord

@[simp] theorem attempt_fetchByte_bind (next : Byte → Action World β) :
    r.attempt (fetchByte >>= next) = (r.skip 1).attempt (next (r.code 0)) :=
  attempt_bind_of_ok r.attempt_fetchByte next

@[simp] theorem attempt_fetchWord_bind (next : Word → Action World β) :
    r.attempt (fetchWord >>= next) = (r.skip 2).attempt (next (r.code.word 0)) :=
  attempt_bind_of_ok r.attempt_fetchWord next

@[simp] theorem attempt_fetch_bind (w : Width) (next : w.Value → Action World β) :
    r.attempt (fetch w >>= next) = (r.skip w.bytes).attempt (next (r.code.value w 0)) :=
  attempt_bind_of_ok (r.attempt_fetch w) next

/-- The register field of the ModR/M byte at IP. -/
def field : RegisterNumber := (ModRM.ofByte (r.code 0)).reg

/-- The place that the ModR/M byte at IP names. -/
def place : Place :=
  (ModRM.ofByte (r.code 0)).place r.segmentOverride (r.code 1) (r.code 2)

/-- The length of the ModR/M byte at IP with its displacement. -/
def modRMLength : Nat := 1 + (ModRM.ofByte (r.code 0)).displacementLength

/-- The runtime with IP behind the ModR/M byte and its displacement. -/
def pastModRM : Runtime World := r.skip r.modRMLength

/-- Where a place is does not depend on IP. -/
@[simp] theorem resolve_skip (n : Nat) (p : Place) :
    p.resolve (r.skip n).cpu.registers = p.resolve r.cpu.registers := by
  cases p <;> rfl

/-- Nor is what stands there. -/
@[simp] theorem readOperand_skip (n : Nat) (w : Width) (o : Operand) :
    (r.skip n).cpu.readOperand w o = r.cpu.readOperand w o :=
  r.cpu.readOperand_relocate _ _ w o

theorem attempt_fetchModRM :
    r.attempt fetchModRM =
      (.ok (r.field, r.place.resolve r.pastModRM.cpu.registers), r.pastModRM) := by
  have length : 1 + BitVec.ofNat 16 (ModRM.ofByte (r.code 0)).displacementLength =
      BitVec.ofNat 16 r.modRMLength := (BitVec.ofNat_add 1 _).symm
  have past : { r with cpu := (r.cpu.fetchModRM r.segmentOverride).2.2 } = r.pastModRM :=
    congrArg (fun d => { r with cpu := r.cpu.advance d }) length
  have taken : r.attempt fetchModRM =
      (.ok (r.field, r.place.resolve r.cpu.registers),
        { r with cpu := (r.cpu.fetchModRM r.segmentOverride).2.2 }) := rfl
  rw [taken, past, pastModRM, resolve_skip]

@[simp] theorem attempt_fetchModRM_bind (next : RegisterNumber × Operand → Action World β) :
    r.attempt (fetchModRM >>= next) =
      r.pastModRM.attempt (next (r.field, r.place.resolve r.pastModRM.cpu.registers)) :=
  attempt_bind_of_ok r.attempt_fetchModRM next

/-! ## Instructions at once -/

/-- The runtime whose processor has carried out an instruction. -/
def carried (i : Instruction) : Runtime World := { r with cpu := (r.cpu.execute i).1 }

/-- Does what a signal asks for. -/
def follow : Signal → Except Fault Step × Runtime World
  | .next => (.ok .next, r)
  | .halt => (.ok .halted, r)
  | .interrupt vector => r.raise vector

/-- Carries out an instruction and does what it asks for. -/
def carryOut (i : Instruction) : Except Fault Step × Runtime World :=
  (r.carried i).follow (r.cpu.execute i).2

/-- What the ModR/M byte at IP completes an opcode to. -/
def selected (op : Opcode) : Option (Instruction × Nat) :=
  Instruction.decodeModRM? op r.prefixes r.field r.place r.code r.modRMLength

/-- What becomes of an opcode whose bytes complete it to an instruction, or do not. Where they do
not, nothing has happened but that its ModR/M byte and the displacement have been taken. -/
def completed (opcode : Byte) (found : Option (Instruction × Nat)) :
    Except Fault Step × Runtime World :=
  match found with
  | some (i, length) => (r.skip length).carryOut i
  | none => r.pastModRM.attempt (illegal opcode)

/-- Immediate data behind something else. -/
@[simp] theorem value_drop (code : Code) (w : Width) (j k : Nat) :
    (code.drop j).value w k = code.value w (j + k) := by
  cases w <;> rfl

variable {r}

/-- A handler that has carried out an instruction. -/
theorem attempt_onward {s : Runtime World} {action : Action World Unit} {i : Instruction}
    (done : r.attempt action = (.ok (), s.carried i)) (goesOn : (s.cpu.execute i).2 = .next) :
    r.attempt (onward action) = s.carryOut i := by
  rw [onward, attempt_bind_of_ok done, carryOut, goesOn]
  rfl

/-- A handler that has taken nothing from the instruction stream. -/
theorem attempt_onward_at_once {action : Action World Unit} {i : Instruction}
    (done : r.attempt action = (.ok (), r.carried i)) (goesOn : (r.cpu.execute i).2 = .next) :
    r.attempt (onward action) = (r.skip 0).carryOut i := by
  rw [skip_zero, attempt_onward done goesOn]

/-- A handler that begins with the ModR/M byte. -/
theorem attempt_onward_fetchModRM (next : RegisterNumber × Operand → Action World Unit) :
    r.attempt (onward (fetchModRM >>= next)) =
      r.pastModRM.attempt (onward (next (r.field, r.place.resolve r.pastModRM.cpu.registers))) := by
  rw [onward, attempt_bind, attempt_fetchModRM_bind, onward, attempt_bind]

end

end Runtime

end I8086
