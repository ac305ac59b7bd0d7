import I8086.Proofs.Fetch
import I8086.Proofs.Flow

/-!
# IP after an instruction

Every instruction is executed with IP behind its last byte, which `Encoding.length` finds from the
bytes alone. So control goes on there, relative jumps count from there, and calls and interrupts
leave that offset as their return address.
-/

namespace I8086.Machine

variable {World : Type} {m : Machine World} {bytes : List Byte}

/-- Taking note of the start of an instruction changes nothing else in the processor. -/
theorem cpu_markStart (m : Machine World) :
    m.markStart.cpu = m.cpu.relocate m.cpu.registers.ip m.instructionStart := by
  rw [markStart_eq]
  rfl

@[simp] theorem flow_markStart (m : Machine World) (i : Instruction) :
    i.flow m.markStart.cpu = i.flow m.cpu := by
  rw [cpu_markStart, i.flow_relocate]

@[simp] theorem signal_markStart (m : Machine World) (i : Instruction) :
    (m.markStart.cpu.execute i).2 = (m.cpu.execute i).2 := by
  rw [cpu_markStart, Cpu.snd_execute_relocate]

@[simp] theorem readVector_markStart (m : Machine World) (vector : Byte) :
    m.markStart.cpu.readVector vector = m.cpu.readVector vector := by
  rw [cpu_markStart, Cpu.readVector_relocate]

/-- What is fetched in a step that rejects nothing. -/
theorem fetched_of_legal (running : m.cpu.halted = false) (holds : m.code.Holds bytes)
    (prefixes : ∀ b ∈ bytes, b.IsPrefix) (stop : ¬(m.code bytes.length).IsPrefix)
    (short : bytes.length < maxPrefixRun)
    (legal : ∀ opcode cs ip, m.step.1 ≠ .error (.illegalInstruction opcode cs ip)) :
    ∃ i, m.fetched =
        .instruction i (bytes.length + Encoding.length (m.code.drop bytes.length)) ∧
      ∀ d, i.distance? = some d → Encoding.distance? (m.code.drop bytes.length) = some d := by
  have fetched := Fetched.ofCode_of_lt holds prefixes stop short (m.pending.getD {})
  cases decoded : (m.code.drop bytes.length).decode? ((m.pending.getD {}).extend bytes) with
  | none =>
      rw [decoded] at fetched
      exact absurd (congrArg Prod.fst (step_of_undefined running fetched)) (legal _ _ _)
  | some found =>
      obtain ⟨i, length⟩ := found
      rw [decoded] at fetched
      refine ⟨i, ?_, fun d jumps => ?_⟩
      · rw [← Code.snd_of_decode? decoded]
        exact fetched
      · rw [← Code.distance?_of_decode? decoded, jumps]

/-- An instruction that jumps by a distance has that distance in it. -/
theorem distance?_of_flow {c : Cpu} {i : Instruction} {d : Word}
    (jumps : i.flow c = .relative d) : i.distance? = some d := by
  cases i with
  | jumpIf | loop | jcxz =>
      rw [Instruction.flow] at jumps
      split at jumps
      · cases jumps
        rfl
      · cases jumps
  | jump | call =>
      cases jumps
      rfl
  | _ => cases jumps

/-- The processor that executes an instruction is the one before the step, placed behind it. -/
theorem cpu_executed (m : Machine World) (i : Instruction) (length : Nat) :
    (m.executed i length).cpu =
      ((m.cpu.relocate (m.cpu.registers.ip + BitVec.ofNat 16 length)
        m.cpu.registers.opIp).execute i).1 := rfl

/-- IP after an instruction, before any interrupt is delivered. -/
theorem ip_executed (m : Machine World) (i : Instruction) (length : Nat) :
    (m.executed i length).cpu.registers.ip =
      (i.flow m.cpu).ip (m.cpu.registers.ip + BitVec.ofNat 16 length)
        (m.executed i length).cpu.registers.ip := by
  rw [cpu_executed, ← i.flow_relocate m.cpu (m.cpu.registers.ip + BitVec.ofNat 16 length)
    m.cpu.registers.opIp]
  cases isCall : i.isCall with
  | true => exact Cpu.ip_execute_of_isCall _ isCall
  | false => exact Cpu.ip_execute _ isCall

theorem signal_eq (m : Machine World) (i : Instruction) (length : Nat) :
    m.signal i length = (m.cpu.execute i).2 :=
  m.cpu.snd_execute_relocate _ _ i

/-- Without an interrupt the processor is as the instruction leaves it. -/
theorem cpu_perform {i : Instruction} {length : Nat}
    (quiet : ∀ vector, (m.cpu.execute i).2 ≠ .interrupt vector) :
    (m.perform i length).2.cpu = (m.executed i length).cpu := by
  rw [perform_eq, signal_eq]
  cases asks : (m.cpu.execute i).2 with
  | next => rfl
  | halt => rfl
  | interrupt vector => exact absurd asks (quiet vector)

/-- Control goes on behind an instruction that neither jumps nor interrupts. -/
theorem ip_perform_of_onward {i : Instruction} (onward : i.flow m.cpu = .onward)
    (quiet : ∀ vector, (m.cpu.execute i).2 ≠ .interrupt vector) (length : Nat) :
    (m.perform i length).2.cpu.registers.ip = m.cpu.registers.ip + BitVec.ofNat 16 length := by
  rw [cpu_perform quiet, ip_executed, onward]
  rfl

/-- A relative jump counts from behind the instruction. -/
theorem ip_perform_of_relative {i : Instruction} {d : Word}
    (jumps : i.flow m.cpu = .relative d) (length : Nat) :
    (m.perform i length).2.cpu.registers.ip =
      m.cpu.registers.ip + BitVec.ofNat 16 length + d := by
  have quiet (vector : Byte) : (m.cpu.execute i).2 ≠ .interrupt vector := by
    intro asks
    rw [Cpu.flow_of_interrupt m.cpu asks] at jumps
    cases jumps
  rw [cpu_perform quiet, ip_executed, jumps]
  rfl

/-- A call leaves the offset behind itself on top of the stack. -/
theorem readWord_perform_of_isCall {i : Instruction} (isCall : i.isCall = true) (length : Nat) :
    (m.perform i length).2.cpu.readWord .ss (m.perform i length).2.cpu.registers.sp =
      m.cpu.registers.ip + BitVec.ofNat 16 length := by
  have quiet (vector : Byte) : (m.cpu.execute i).2 ≠ .interrupt vector := by
    rw [Cpu.signal_of_isCall m.cpu isCall]
    exact Signal.noConfusion
  rw [cpu_perform quiet]
  exact Cpu.readWord_execute_of_isCall _ isCall

/-- An interrupt finds IP behind the instruction that has asked for it. -/
theorem ip_executed_of_interrupt {i : Instruction} {vector : Byte}
    (asks : (m.cpu.execute i).2 = .interrupt vector) (length : Nat) :
    (m.executed i length).cpu.registers.ip = m.cpu.registers.ip + BitVec.ofNat 16 length := by
  rw [ip_executed, Cpu.flow_of_interrupt m.cpu asks]
  rfl

/-- The vector table is not changed by what asks for an interrupt. -/
theorem readVector_executed {i : Instruction} {vector : Byte}
    (asks : (m.cpu.execute i).2 = .interrupt vector) (length : Nat) :
    (m.executed i length).cpu.readVector vector = m.cpu.readVector vector := by
  have memory : (m.executed i length).cpu.memory = m.cpu.memory :=
    Cpu.memory_of_interrupt _ ((m.signal_eq i length).trans asks)
  unfold Cpu.readVector
  rw [memory]

/-- The offset behind the instruction is where an interrupt routine, if there is one, returns to,
and where control goes on if there is none. -/
theorem perform_of_interrupt {i : Instruction} {vector : Byte}
    (asks : (m.cpu.execute i).2 = .interrupt vector) (length : Nat)
    (free : m.bus.target? vector = none) :
    if m.cpu.readVector vector = (0, 0) then
      (m.perform i length).1 = .ok (.unhandled vector none) ∧
        (m.perform i length).2.cpu.registers.ip = m.cpu.registers.ip + BitVec.ofNat 16 length
    else
      (m.perform i length).1 = .ok .next ∧
        (m.perform i length).2.cpu.readWord .ss (m.perform i length).2.cpu.registers.sp =
          m.cpu.registers.ip + BitVec.ofNat 16 length := by
  have vectors := readVector_executed asks length
  have behind := ip_executed_of_interrupt asks length
  have performed : m.perform i length = concluded ((m.executed i length).raise vector) := by
    rw [perform_eq, signal_eq, asks]
    rfl
  split
  case isTrue empty =>
      rw [performed, raise_of_empty (by exact free) (vectors.trans empty)]
      exact ⟨rfl, behind⟩
  case isFalse entry =>
      rw [performed, raise_of_entry (by exact free) (vectors ▸ entry)]
      exact ⟨rfl, (Cpu.readWord_enterInterrupt _ _ _).trans behind⟩

/-- IP after one step, with prefixes at `CS:IP`, fewer than a step may read, and then an
instruction that is defined. The bytes tell the offset `next` behind it. There control goes on
unless the instruction jumps; relative jumps and calls that are taken go from there by the
distance in the bytes; and `next` is the return address of a call and of an interrupt, whether a
routine is entered, a handler of the host called, or nobody found to serve it. Prefixes that were
read in earlier steps make no difference. -/
theorem step_instructionPointer (running : m.cpu.halted = false) (holds : m.code.Holds bytes)
    (prefixes : ∀ b ∈ bytes, b.IsPrefix) (stop : ¬(m.code bytes.length).IsPrefix)
    (short : bytes.length < maxPrefixRun)
    (legal : ∀ opcode cs ip, m.step.1 ≠ .error (.illegalInstruction opcode cs ip)) :
    let code := m.code.drop bytes.length
    let length := bytes.length + Encoding.length code
    let next := m.cpu.registers.ip + BitVec.ofNat 16 length
    let after := m.step.2.cpu
    ∃ i, m.fetched = .instruction i length ∧
      (i.flow m.cpu = .onward → (∀ vector, (m.cpu.execute i).2 ≠ .interrupt vector) →
        after.registers.ip = next) ∧
      (∀ d, i.flow m.cpu = .relative d →
        Encoding.distance? code = some d ∧ after.registers.ip = next + d) ∧
      (i.isCall → after.readWord .ss after.registers.sp = next) ∧
      ∀ vector, (m.cpu.execute i).2 = .interrupt vector →
        match m.bus.target? vector with
        | some handler =>
          (m.markStart.executed i length).cpu.registers.ip = next ∧
            m.step = concluded ((m.markStart.executed i length).serve handler vector)
        | none =>
          if m.cpu.readVector vector = (0, 0) then
            m.step.1 = .ok (.unhandled vector none) ∧ after.registers.ip = next
          else m.step.1 = .ok .next ∧ after.readWord .ss after.registers.sp = next := by
  intro code length next after
  obtain ⟨i, fetched, distance⟩ := fetched_of_legal running holds prefixes stop short legal
  have step := step_of_instruction running fetched
  have place : m.markStart.cpu.registers.ip + BitVec.ofNat 16 length = next := by
    rw [cpu_markStart]
    rfl
  refine ⟨i, fetched, ?_⟩
  simp only [after, step]
  rw [← place, ← m.flow_markStart, ← m.signal_markStart, ← m.bus_markStart]
  refine ⟨fun onward quiet => ip_perform_of_onward onward quiet length,
    fun d jumps => ⟨distance d (distance?_of_flow jumps), ip_perform_of_relative jumps length⟩,
    fun isCall => readWord_perform_of_isCall isCall length, fun vector asks => ?_⟩
  cases claimed : m.markStart.bus.target? vector with
  | some handler =>
      refine ⟨ip_executed_of_interrupt asks length, ?_⟩
      rw [perform_eq, signal_eq, asks, ← raise_of_target (by exact claimed)]
      rfl
  | none =>
      rw [← readVector_markStart]
      exact perform_of_interrupt asks length claimed

/-- A call with a prefix, four bytes long in all. -/
theorem step_instructionPointer_of_call :
    let m := booted [0x26, 0xE8, 0x34, 0x12]
    m.step.2.cpu.registers.ip = 4 + 0x1234 ∧
      m.step.2.cpu.readWord .ss m.step.2.cpu.registers.sp = 4 := by
  intro m
  have holds : m.code.Holds ([0x26] ++ [0xE8, 0x34, 0x12]) := code_booted (by decide)
  have running : m.cpu.halted = false := rfl
  have ip : m.cpu.registers.ip = 0 := rfl
  -- From here on only these facts about the machine count, not what its memory is made of.
  clear_value m
  have opcode : m.code 1 = 0xE8 := holds 1 (by decide)
  have callNear : Opcode.ofByte? (m.code.drop 1 0) = some .callNear := by
    rw [Code.drop_apply, opcode]
    decide
  have length : Encoding.length (m.code.drop 1) = 3 := Encoding.length_eq callNear
  have word : ((m.code.drop 1).drop 1).word 0 = 0x1234 := by
    have low : m.code (1 + (1 + 0)) = 0x34 := holds 2 (by decide)
    have high : m.code (1 + (1 + (0 + 1))) = 0x12 := holds 3 (by decide)
    rw [Code.word, Code.drop_apply, Code.drop_apply, Code.drop_apply, Code.drop_apply, low, high]
    decide
  have fetched : m.fetched = .instruction (.call 0x1234) 4 := by
    have decoded (p : Prefixes) : (m.code.drop 1).decode? p = some (.call 0x1234, 3) := by
      rw [Code.decode?, callNear, ← word]
      rfl
    have found := Fetched.ofCode_of_lt holds.left (by decide)
      (by rw [List.length_singleton, opcode]; decide) (by decide) (m.pending.getD {})
    rwa [List.length_singleton, decoded] at found
  have legal : m.step.1 = .ok .next := by
    rw [step_of_instruction running fetched, perform_eq, fst_concluded]
    rfl
  obtain ⟨i, same, _, jumps, calls, _⟩ := step_instructionPointer running holds.left (by decide)
    (by rw [List.length_singleton, opcode]; decide) (by decide)
    (fun _ _ _ failed => by rw [legal] at failed; cases failed)
  rw [fetched] at same
  injection same with call
  subst call
  have next : (0 : Word) + BitVec.ofNat 16 (1 + 3) = 4 := by decide
  rw [List.length_singleton, length, ip, next] at jumps
  rw [List.length_singleton, length, ip, next] at calls
  have flow : Instruction.flow m.cpu (.call 0x1234) = .relative 0x1234 := rfl
  exact ⟨(jumps _ flow).2, calls rfl⟩

end I8086.Machine
