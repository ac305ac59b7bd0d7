import I8086.Proofs.PrefixFields
import I8086.Proofs.PrefixRun

/-!
# Undefined instructions leave no trace

An instruction may be spread over several steps if it has many prefixes. `PrefixSteps start n r`
says that `r` arises from `start`, where no run of prefixes was going on, by `n` steps that have
read prefixes and nothing else. Such steps move IP, remember where they began, and count. If the
handler of the opcode then gives the instruction up, its step puts IP back to that place and clears
the fields, so that of the whole attempt only the remembered place and the count remain.

A host handler may report an illegal instruction as well. Then IP goes back, too, to where the
handler has left the remembered place, but what else the handler has done stays done.
-/

namespace I8086

namespace Machine

variable {World : Type}

/-- The instruction at hand asks for an interrupt whose handler gives up with this fault, and this
is how the handler leaves the processor and the world. -/
def HandlerFails (m : Machine World) (fault : Fault) (cpu : Cpu) (world : World) : Prop :=
  ∃ i length vector handler, m.fetched = .instruction i length ∧
    m.markStart.signal i length = .interrupt vector ∧ m.bus.target? vector = some handler ∧
    handler.serve vector (m.markStart.executed i length).cpu m.world = ⟨.error fault, cpu, world⟩

/-- The fault of a step is that of an undefined instruction, or one that a handler reports. -/
theorem step_of_error {m m' : Machine World} {fault : Fault}
    (failed : m.step = (.error fault, m')) :
    m.cpu.halted = false ∧
      ((∃ opcode, m.fetched = .undefined opcode ∧ m.markStart.reject opcode = (.error fault, m')) ∨
        ∃ cpu world, m.HandlerFails fault cpu world ∧
          concluded (.error fault, { m with cpu, world, pending := none }) =
            (.error fault, m')) := by
  obtain ⟨running, ⟨opcode, fetched⟩ | ⟨i, length, fetched, performed⟩⟩ :=
    step_eq_error (congrArg Prod.fst failed)
  · rw [step_of_undefined running fetched] at failed
    exact ⟨running, .inl ⟨opcode, fetched, failed⟩⟩
  · obtain ⟨vector, handler, asks, claimed, answer⟩ := perform_eq_error performed
    have called : (m.markStart.executed i length).follow (.interrupt vector) =
        (m.markStart.executed i length).serve handler vector := raise_of_target claimed
    have rest (cpu : Cpu) (world : World) :
        { m.markStart.executed i length with cpu, world } =
          { m with cpu, world, pending := none } := by
      rw [markStart_eq]
      rfl
    have same : (m.markStart.executed i length).world = m.world := m.world_markStart
    rw [step_of_instruction running fetched, perform_eq, asks, called, serve_eq, same] at failed
    rw [bus_markStart] at claimed
    rw [world_markStart] at answer
    rcases reply : handler.serve vector (m.markStart.executed i length).cpu m.world with
      ⟨service, cpu, world⟩
    rw [reply] at answer failed
    cases answer
    rw [rest] at failed
    exact ⟨running, .inr ⟨cpu, world, ⟨i, length, vector, handler, fetched, asks, claimed, reply⟩,
      failed⟩⟩

end Machine

namespace Runtime

variable {World : Type}

/-- A run of `n` steps from `start` that has read only prefixes so far. -/
inductive PrefixSteps (start : Runtime World) : Nat → Runtime World → Prop where
  | start : start.prefixPending = false → PrefixSteps start 0 start
  | next {n r} : PrefixSteps start n r → r.step.2.prefixPending = true →
      PrefixSteps start (n + 1) r.step.2

/-- A step after which a run of prefixes goes on has read prefixes only. -/
theorem step_of_prefixPending {r : Runtime World} (running : r.cpu.halted = false)
    (pending : r.step.2.prefixPending = true) :
    ∃ p length, r.step = (.ok .next,
      { (r.markStart.withPrefixes p).skip length with
        prefixPending := true
        count := r.count + 1 }) := by
  rw [step_eq_resumed running] at pending ⊢
  obtain ⟨p, length, step⟩ :=
    Machine.step_of_pending (m := r.resumed) (r.halted_resumed.trans running) pending
  refine ⟨p, length, ?_⟩
  rw [step, markStart_resumed, resumed, markStart_eq]
  rfl

/-- Prefix steps that have begun change nothing but IP, the remembered start, the three fields and
the count. The start is IP as it was at first, however many steps follow. -/
theorem PrefixSteps.eq_of_pos {start r : Runtime World} {n : Nat} (steps : PrefixSteps start n r)
    (pos : 0 < n) (running : start.cpu.halted = false) :
    ∃ ip p, r =
      { start.withPrefixes p with
        cpu.registers.ip := ip
        cpu.registers.opIp := start.cpu.registers.ip
        prefixPending := true
        count := start.count + n } := by
  induction steps with
  | start => exact absurd pos (Nat.lt_irrefl 0)
  | @next n r steps pending ih =>
      rcases Nat.eq_zero_or_pos n with rfl | begun
      · cases steps with
        | start fresh =>
            obtain ⟨p, length, step⟩ := step_of_prefixPending running pending
            rw [step, markStart_eq, instructionStart, fresh]
            exact ⟨_, p, rfl⟩
      · obtain ⟨ip, q, rfl⟩ := ih begun
        obtain ⟨p, length, step⟩ := step_of_prefixPending (by exact running) pending
        rw [step, markStart_eq]
        exact ⟨_, p, rfl⟩

theorem PrefixSteps.fresh {start r : Runtime World} {n : Nat} (steps : PrefixSteps start n r) :
    start.prefixPending = false := by
  induction steps with
  | start fresh => exact fresh
  | next _ _ ih => exact ih

/-- A halted machine reads no prefixes. -/
theorem PrefixSteps.eq_start_of_halted {start r : Runtime World} {n : Nat}
    (steps : PrefixSteps start n r) (halted : start.cpu.halted = true) : n = 0 ∧ r = start := by
  induction steps with
  | start => exact ⟨rfl, rfl⟩
  | next steps pending ih =>
      obtain ⟨rfl, rfl⟩ := ih
      cases steps with
      | start fresh =>
          rw [step_of_halted halted, fresh] at pending
          cases pending

/-- What remains when an undefined instruction is given up: IP is back at the first byte of the
instruction, prefixes included, and the three fields are clear. -/
def givenUp (r : Runtime World) : Runtime World :=
  { r.clearPrefixes with
    cpu.registers.ip := r.instructionStart
    cpu.registers.opIp := r.instructionStart }

theorem reject_resumed (r : Runtime World) (opcode : Byte) :
    ((r.resumed.reject opcode).1, of (r.resumed.reject opcode).2) =
      (.error (.illegalInstruction opcode r.cpu.registers.cs r.instructionStart), r.givenUp) := by
  rw [resumed_eq]
  rfl

/-- Of the steps that have read prefixes before, only the remembered start and the count remain. -/
theorem PrefixSteps.givenUp_eq {start r : Runtime World} {n : Nat} (steps : PrefixSteps start n r)
    (running : r.cpu.halted = false) :
    r.instructionStart = start.cpu.registers.ip ∧
      r.givenUp =
        { start.clearPrefixes with
          cpu.registers.opIp := start.cpu.registers.ip
          count := start.count + n } := by
  cases halted : start.cpu.halted with
  | true =>
      obtain ⟨rfl, rfl⟩ := steps.eq_start_of_halted halted
      rw [halted] at running
      cases running
  | false =>
      have fresh := steps.fresh
      rcases Nat.eq_zero_or_pos n with rfl | begun
      · cases steps
        have begins : start.instructionStart = start.cpu.registers.ip := by
          rw [instructionStart, fresh]
          rfl
        rw [givenUp, begins]
        exact ⟨rfl, rfl⟩
      · obtain ⟨ip, p, rfl⟩ := steps.eq_of_pos begun halted
        exact ⟨rfl, rfl⟩

end Runtime

end I8086
