import I8086.Machine

/-!
# What one step can do

A running machine does one of three things with the bytes at `CS:IP`, as `Machine.fetched` says:
it keeps a run of prefixes for the next step, rejects an undefined instruction, or performs an
instruction. The lemmas here name these cases and say what performing an instruction leaves alone,
whatever the host's handlers do. Later proofs cite them and do not open `Machine.step` again.
-/

namespace I8086.Machine

variable {World : Type}

@[simp] theorem code_markStart (m : Machine World) : m.markStart.code = m.code := by
  unfold markStart
  split <;> rfl

@[simp] theorem fetched_markStart (m : Machine World) : m.markStart.fetched = m.fetched := by
  unfold markStart
  split <;> rfl

@[simp] theorem pending_markStart (m : Machine World) : m.markStart.pending = m.pending := by
  unfold markStart
  split <;> rfl

@[simp] theorem bus_markStart (m : Machine World) : m.markStart.bus = m.bus := by
  unfold markStart
  split <;> rfl

@[simp] theorem world_markStart (m : Machine World) : m.markStart.world = m.world := by
  unfold markStart
  split <;> rfl

@[simp] theorem count_markStart (m : Machine World) : m.markStart.count = m.count := by
  unfold markStart
  split <;> rfl

/-- The start of an instruction is noted if none of its prefixes has been read before. -/
theorem markStart_of_none {m : Machine World} (fresh : m.pending = none) :
    m.markStart = { m with cpu.registers.opIp := m.cpu.registers.ip } := by
  rw [markStart, fresh]
  rfl

theorem markStart_of_isSome {m : Machine World} (pending : m.pending.isSome) :
    m.markStart = m := if_pos pending

/-- The place where the instruction at hand begins: the start of its pending prefixes, or IP. -/
def instructionStart (m : Machine World) : Word :=
  if m.pending.isSome then m.cpu.registers.opIp else m.cpu.registers.ip

theorem instructionStart_of_none {m : Machine World} (fresh : m.pending = none) :
    m.instructionStart = m.cpu.registers.ip := by
  rw [instructionStart, fresh]
  rfl

theorem markStart_eq (m : Machine World) :
    m.markStart = { m with cpu.registers.opIp := m.instructionStart } := by
  unfold markStart instructionStart
  split <;> rfl

theorem step_of_halted {m : Machine World} (halted : m.cpu.halted = true) :
    m.step = (.ok .halted, m) := if_pos halted

theorem step_of_prefixes {m : Machine World} (running : m.cpu.halted = false) {p : Prefixes}
    {length : Nat} (fetched : m.fetched = .prefixes p length) :
    m.step = m.markStart.keepPrefixes p length := by
  simp only [step, running, Bool.false_eq_true, if_false, fetched_markStart, fetched]

theorem step_of_undefined {m : Machine World} (running : m.cpu.halted = false) {opcode : Byte}
    (fetched : m.fetched = .undefined opcode) : m.step = m.markStart.reject opcode := by
  simp only [step, running, Bool.false_eq_true, if_false, fetched_markStart, fetched]

theorem step_of_instruction {m : Machine World} (running : m.cpu.halted = false)
    {i : Instruction} {length : Nat} (fetched : m.fetched = .instruction i length) :
    m.step = m.markStart.perform i length := by
  simp only [step, running, Bool.false_eq_true, if_false, fetched_markStart, fetched]

/-! ## Interrupts -/

theorem raise_of_target {m : Machine World} {vector : Byte} {handler : Handler World}
    (claimed : m.bus.target? vector = some handler) :
    m.raise vector = m.serve handler vector := by
  simp only [raise, claimed]

/-- Without a handler the vector table decides. -/
theorem raise_of_none {m : Machine World} {vector : Byte} (free : m.bus.target? vector = none) :
    m.raise vector =
      if (m.cpu.readVector vector).1 = 0 ∧ (m.cpu.readVector vector).2 = 0 then
        (.ok (.unhandled vector none), m)
      else
        (.ok .next, { m with
          cpu := m.cpu.enterInterrupt (m.cpu.readVector vector).1
            (m.cpu.readVector vector).2 }) := by
  simp only [raise, free]

/-- Without a handler and without an entry in the table nothing happens. -/
theorem raise_of_empty {m : Machine World} {vector : Byte} (free : m.bus.target? vector = none)
    (empty : m.cpu.readVector vector = (0, 0)) :
    m.raise vector = (.ok (.unhandled vector none), m) := by
  rw [raise_of_none free, empty, if_pos ⟨rfl, rfl⟩]

/-- Without a handler the routine that the table names is entered. -/
theorem raise_of_entry {m : Machine World} {vector : Byte} (free : m.bus.target? vector = none)
    (entry : m.cpu.readVector vector ≠ (0, 0)) :
    m.raise vector =
      (.ok .next, { m with
        cpu := m.cpu.enterInterrupt (m.cpu.readVector vector).1 (m.cpu.readVector vector).2 }) := by
  rw [raise_of_none free, if_neg fun empty => entry (Prod.ext empty.1 empty.2)]

/-- What a handler's answer makes of a machine. -/
theorem serve_eq (m : Machine World) (handler : Handler World) (vector : Byte) :
    m.serve handler vector =
      ((handler.serve vector m.cpu m.world).service.map (·.toStep vector),
        { m with
          cpu := (handler.serve vector m.cpu m.world).cpu
          world := (handler.serve vector m.cpu m.world).world }) := by
  obtain ⟨cpu, world, bus, pending, count, tracing⟩ := m
  simp only [serve]
  rcases handler.serve vector cpu world with ⟨fault | service, c, w⟩ <;> rfl

@[simp] theorem pending_raise (m : Machine World) (vector : Byte) :
    (m.raise vector).2.pending = m.pending := by
  cases claimed : m.bus.target? vector with
  | some handler => rw [raise_of_target claimed, serve_eq]
  | none =>
      rw [raise_of_none claimed]
      split <;> rfl

theorem count_raise (m : Machine World) (vector : Byte) :
    (m.raise vector).2.count = m.count := by
  cases claimed : m.bus.target? vector with
  | some handler => rw [raise_of_target claimed, serve_eq]
  | none =>
      rw [raise_of_none claimed]
      split <;> rfl

/-- The only way for an interrupt to fail is that its handler does, with the same fault. -/
theorem raise_eq_error {m : Machine World} {vector : Byte} {fault : Fault}
    (failed : (m.raise vector).1 = .error fault) :
    ∃ handler, m.bus.target? vector = some handler ∧
      (handler.serve vector m.cpu m.world).service = .error fault := by
  cases claimed : m.bus.target? vector with
  | none =>
      rw [raise_of_none claimed] at failed
      split at failed <;> cases failed
  | some handler =>
      rw [raise_of_target claimed, serve_eq] at failed
      cases answer : (handler.serve vector m.cpu m.world).service with
      | ok service =>
          rw [answer] at failed
          cases failed
      | error other =>
          rw [answer] at failed
          cases failed
          exact ⟨handler, rfl, answer⟩

/-! ## Performing an instruction -/

section

variable (result : Except Fault Step × Machine World)

@[simp] theorem fst_concluded : (concluded result).1 = result.1 := by
  obtain ⟨(_ | _ | _ | _) | _, _⟩ := result <;> rfl

@[simp] theorem pending_concluded : (concluded result).2.pending = result.2.pending := by
  obtain ⟨(_ | _ | _ | _) | _, _⟩ := result <;> rfl

@[simp] theorem bus_concluded : (concluded result).2.bus = result.2.bus := by
  obtain ⟨(_ | _ | _ | _) | _, _⟩ := result <;> rfl

@[simp] theorem flags_concluded : (concluded result).2.cpu.flags = result.2.cpu.flags := by
  obtain ⟨(_ | _ | _ | _) | _, _⟩ := result <;> rfl

@[simp] theorem memory_concluded : (concluded result).2.cpu.memory = result.2.cpu.memory := by
  obtain ⟨(_ | _ | _ | _) | _, _⟩ := result <;> rfl

@[simp] theorem halted_concluded : (concluded result).2.cpu.halted = result.2.cpu.halted := by
  obtain ⟨(_ | _ | _ | _) | _, _⟩ := result <;> rfl

end

/-- A step that has succeeded ends where it has led. -/
theorem cpu_concluded_of_ok {result : Except Fault Step × Machine World} {step : Step}
    (done : result.1 = .ok step) : (concluded result).2.cpu = result.2.cpu := by
  obtain ⟨_ | _, _⟩ := result
  · cases done
  · rfl

/-- A step that has failed does not count, and its fault decides about IP. -/
theorem concluded_of_error {fault : Fault} (m : Machine World) :
    concluded (.error fault, m) =
      (.error fault,
        match fault with
        | .illegalInstruction _ _ _ => { m with cpu := m.cpu.jump m.cpu.registers.opIp }
        | _ => m) := by
  cases fault <;> rfl

/-- The machine whose processor has executed an instruction of this length, its prefixes used up. -/
def executed (m : Machine World) (i : Instruction) (length : Nat) : Machine World :=
  { m with cpu := ((m.cpu.advance (BitVec.ofNat 16 length)).execute i).1, pending := none }

/-- What that instruction asks the machine to do. -/
def signal (m : Machine World) (i : Instruction) (length : Nat) : Signal :=
  ((m.cpu.advance (BitVec.ofNat 16 length)).execute i).2

theorem perform_eq (m : Machine World) (i : Instruction) (length : Nat) :
    m.perform i length = concluded ((m.executed i length).follow (m.signal i length)) := rfl

@[simp] theorem pending_follow (m : Machine World) (s : Signal) :
    (m.follow s).2.pending = m.pending := by
  cases s with
  | next => rfl
  | halt => rfl
  | interrupt vector => exact pending_raise m vector

/-- Steps are counted when they are done, not before. -/
theorem count_follow (m : Machine World) (s : Signal) : (m.follow s).2.count = m.count := by
  cases s with
  | next => rfl
  | halt => rfl
  | interrupt vector => exact count_raise m vector

/-- Performing an instruction uses up its prefixes, also if a handler fails. -/
@[simp] theorem pending_perform (m : Machine World) (i : Instruction) (length : Nat) :
    (m.perform i length).2.pending = none := by
  rw [perform_eq, pending_concluded, pending_follow]
  rfl

/-- A step after which prefixes are pending has read prefixes only. -/
theorem step_of_pending {m : Machine World} (running : m.cpu.halted = false)
    (pending : m.step.2.pending.isSome) :
    ∃ p length, m.step = m.markStart.keepPrefixes p length := by
  cases fetched : m.fetched with
  | prefixes p length => exact ⟨p, length, step_of_prefixes running fetched⟩
  | undefined opcode =>
      rw [step_of_undefined running fetched] at pending
      cases pending
  | instruction i length =>
      rw [step_of_instruction running fetched, pending_perform] at pending
      cases pending

/-- Performing an instruction fails only with a handler that it has called, and with its fault. -/
theorem perform_eq_error {m : Machine World} {i : Instruction} {length : Nat} {fault : Fault}
    (failed : (m.perform i length).1 = .error fault) :
    ∃ vector handler, m.signal i length = .interrupt vector ∧
      m.bus.target? vector = some handler ∧
      (handler.serve vector (m.executed i length).cpu m.world).service = .error fault := by
  rw [perform_eq, fst_concluded] at failed
  cases signal : m.signal i length with
  | next =>
      rw [signal] at failed
      cases failed
  | halt =>
      rw [signal] at failed
      cases failed
  | interrupt vector =>
      rw [signal] at failed
      obtain ⟨handler, claimed, answer⟩ := raise_eq_error failed
      exact ⟨vector, handler, rfl, claimed, answer⟩

/-- The ways in which a step can fail. -/
theorem step_eq_error {m : Machine World} {fault : Fault} (failed : m.step.1 = .error fault) :
    m.cpu.halted = false ∧
      ((∃ opcode, m.fetched = .undefined opcode) ∨
        ∃ i length, m.fetched = .instruction i length ∧
          (m.markStart.perform i length).1 = .error fault) := by
  cases running : m.cpu.halted with
  | true =>
      rw [step_of_halted running] at failed
      cases failed
  | false =>
      refine ⟨rfl, ?_⟩
      cases fetched : m.fetched with
      | prefixes p length =>
          rw [step_of_prefixes running fetched] at failed
          cases failed
      | undefined opcode => exact .inl ⟨opcode, rfl⟩
      | instruction i length =>
          rw [step_of_instruction running fetched] at failed
          exact .inr ⟨i, length, rfl, failed⟩

end I8086.Machine
