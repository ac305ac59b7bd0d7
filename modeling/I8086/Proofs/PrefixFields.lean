import I8086.Proofs.Action.Step
import I8086.Proofs.Run

/-!
# Prefixes in three fields

A machine holds what pending prefixes ask for as one optional value. A `Runtime` has three fields in
its place, which could hold anything. A step begins with the segment and the repetition as it finds
them, whether a run of prefixes goes on or not, fills them as it reads prefixes, and clears all
three on every way out but one. Nothing but the order of these assignments keeps an instruction from
the prefixes of an earlier one. `Runtime.step_eq_resumed` says what a step comes to, whatever is in
the fields: it is the step of a machine whose pending prefixes are what the fields hold.
`Runtime.of` shows that they hold nothing else: a machine, seen as a runtime, behaves like one in
every operation.
-/

namespace I8086

open Machine (ending? runFor_succ)

namespace Runtime

variable {World : Type}

/-- The power-on state. Memory, world and handlers are kept. -/
def reset (r : Runtime World) : Runtime World := (r.withMachine r.machine.reset).clearPrefixes

/-- Loads a program and prepares its start. -/
def loadProgram (r : Runtime World) (program : List Byte) : Except Fault (Runtime World) :=
  (r.machine.loadProgram program).map fun m => (r.withMachine m).clearPrefixes

/-- Copies bytes to a place in memory. -/
def loadAt (r : Runtime World) (segment offset : Word) (data : List Byte) :
    Except Fault (Runtime World) :=
  (r.machine.loadAt segment offset data).map r.withMachine

/-- Maps a range of vectors to a handler. -/
def registerHandler (r : Runtime World) (first last : Byte) (handler : Handler World) :
    Runtime World :=
  r.withMachine (r.machine.registerHandler first last handler)

/-- Takes at most `limit` steps, until one of them ends the program or fails. -/
def runFor : (limit : Nat) → Runtime World → Except Fault Outcome × Runtime World
  | 0, r => (.ok .limitReached, r)
  | limit + 1, r =>
    match ending? r.step.1 with
    | some outcome => (outcome, r.step.2)
    | none => runFor limit r.step.2

/-- Runs with or without a limit on the number of steps. -/
def run (r : Runtime World) (limit : Option Nat) : Except Fault Outcome × Runtime World :=
  r.runFor (limit.getD maxSteps)

/-! ## A machine seen as a runtime -/

/-- The fields hold what the pending prefixes of the machine ask for. -/
def of (m : Machine World) : Runtime World where
  cpu := m.cpu
  world := m.world
  bus := m.bus
  segmentOverride := m.segmentOverride
  repetition := m.repetition
  prefixPending := m.pending.isSome
  count := m.count
  tracing := m.tracing

section

variable (m : Machine World)

/-- Fields that say nothing about a machine without pending prefixes are clear. -/
theorem of_eq_clear {m : Machine World} (none : m.pending = none) (r : Runtime World) :
    of m = (r.withMachine m).clearPrefixes := by
  obtain ⟨cpu, world, bus, pending, count, tracing⟩ := m
  cases none
  rfl

theorem of_reset : (of m).reset = of m.reset := rfl

theorem of_loadProgram (program : List Byte) :
    (of m).loadProgram program = (m.loadProgram program).map of := by
  unfold loadProgram Machine.loadProgram
  split <;> rfl

theorem of_loadAt (segment offset : Word) (data : List Byte) :
    (of m).loadAt segment offset data = (m.loadAt segment offset data).map of := by
  unfold loadAt Machine.loadAt
  rw [show (of m).machine.cpu = m.cpu from rfl]
  cases m.cpu.memory.load (Address.translate segment offset).toNat data <;> rfl

theorem of_registerHandler (first last : Byte) (handler : Handler World) :
    (of m).registerHandler first last handler = of (m.registerHandler first last handler) := rfl

theorem of_raise (vector : Byte) :
    (of m).raise vector = ((m.raise vector).1, of (m.raise vector).2) := by
  unfold raise
  cases claimed : m.bus.target? vector with
  | some handler =>
      have here : (of m).machine.bus.target? vector = some handler := claimed
      rw [Machine.raise_of_target here, Machine.raise_of_target claimed, Machine.serve_eq,
        Machine.serve_eq]
      rfl
  | none =>
      have here : (of m).machine.bus.target? vector = none := claimed
      have vectors : (of m).machine.cpu.readVector vector = m.cpu.readVector vector := rfl
      by_cases empty : m.cpu.readVector vector = (0, 0)
      · rw [Machine.raise_of_empty here (vectors.trans empty), Machine.raise_of_empty claimed empty]
        rfl
      · rw [Machine.raise_of_entry here (vectors ▸ empty), Machine.raise_of_entry claimed empty]
        rfl

theorem of_markStart : (of m).markStart = of m.markStart := by
  unfold markStart Machine.markStart
  rw [show (of m).prefixPending = m.pending.isSome from rfl]
  split <;> rfl

end

/-! ## Steps -/

section

variable {r : Runtime World}

/-- The machine at the start of a step, whose pending prefixes are what the fields hold. -/
def resumed (r : Runtime World) : Machine World :=
  { r.markStart.machine with pending := some r.prefixes }

theorem resumed_eq (r : Runtime World) :
    r.resumed =
      { r.machine with
        cpu.registers.opIp := r.instructionStart
        pending := some r.prefixes } := by
  rw [resumed, markStart_eq]
  rfl

theorem code_resumed (r : Runtime World) : r.resumed.code = r.code := r.code_markStart

theorem halted_resumed (r : Runtime World) : r.resumed.cpu.halted = r.cpu.halted :=
  r.halted_markStart

theorem bus_resumed (r : Runtime World) : r.resumed.bus = r.bus := by
  rw [resumed_eq]
  rfl

/-- It has taken note of where its instruction began. -/
theorem markStart_resumed (r : Runtime World) : r.resumed.markStart = r.resumed :=
  Machine.markStart_of_isSome rfl

/-- What stands at `CS:IP`, after the prefixes that the fields hold. -/
def fetched (r : Runtime World) : Fetched :=
  .ofCode r.machine.code ⟨r.segmentOverride, r.repetition⟩

/-- The next step finds it there. -/
theorem fetched_resumed (r : Runtime World) : r.resumed.fetched = r.fetched :=
  congrArg (Fetched.ofCode · r.prefixes) r.code_resumed

theorem follow_eq (r : Runtime World) (signal : Signal) :
    r.follow signal = ((r.machine.follow signal).1, r.withMachine (r.machine.follow signal).2) := by
  cases signal <;> rfl

/-- The end of a step clears the fields like the pending prefixes of a machine. -/
theorem conclude_withMachine (r : Runtime World) {result : Except Fault Step × Machine World}
    (clear : result.2.pending = none) :
    conclude (result.1.map some, r.withMachine result.2) =
      ((Machine.concluded result).1, of (Machine.concluded result).2) := by
  obtain ⟨outcome, cpu, world, bus, pending, count, tracing⟩ := result
  cases clear
  rcases outcome with (_ | _ | _ | _) | _ <;> rfl

/-- What an instruction comes to when its step is over. -/
theorem conclude_carryOut (r : Runtime World) (i : Instruction) (length : Nat) :
    conclude (((r.skip length).carryOut i).1.map some, ((r.skip length).carryOut i).2) =
      ((r.machine.perform i length).1, of (r.machine.perform i length).2) := by
  have carried : (r.skip length).carryOut i =
      ((r.skip length).carried i).follow (r.machine.signal i length) := rfl
  have executed : r.machine.executed i length = ((r.skip length).carried i).machine := rfl
  rw [carried, Machine.perform_eq, executed, follow_eq]
  exact conclude_withMachine _ (Machine.pending_follow _ _)

/-- What the bytes behind the prefixes come to when the step is over. -/
theorem conclude_fetchAndExecute {r : Runtime World} (stop : ¬(r.code 0).IsPrefix) (room : Nat) :
    conclude (r.attempt (Action.fetchAndExecute (room + 1))) =
      ((r.machine.executeUnder r.prefixes).1, of (r.machine.executeUnder r.prefixes).2) := by
  have code : r.machine.code = r.code := rfl
  rw [Machine.executeUnder, code]
  cases decoded : r.code.decode? r.prefixes with
  | some found => rw [attempt_fetchAndExecute_of_decode? stop decoded, conclude_carryOut]
  | none =>
      obtain ⟨n, givenUp⟩ := attempt_fetchAndExecute_of_undefined stop decoded room
      rw [givenUp]
      rfl

/-- A step begins with what the fields hold, and leaves nothing in them but pending prefixes. -/
theorem step_eq_resumed (running : r.cpu.halted = false) :
    r.step = (r.resumed.step.1, of r.resumed.step.2) := by
  have awake : r.resumed.cpu.halted = false := r.halted_resumed.trans running
  obtain ⟨bytes, holds, prefixes, ends⟩ := r.code.exists_prefixes maxPrefixRun
  have there : r.resumed.code.Holds bytes := r.code_resumed ▸ holds
  rcases ends with ⟨short, stop⟩ | full
  · obtain ⟨room, rest⟩ := Nat.exists_eq_add_of_lt short
    rw [step_of_prefixes running holds prefixes (rest.trans (Nat.add_assoc _ room 1)),
      conclude_fetchAndExecute ((r.code_behind bytes) ▸ stop),
      Machine.step_of_run awake there prefixes (r.code_resumed ▸ stop) short,
      markStart_resumed]
    rfl
  · have all : maxPrefixRun = bytes.length + 0 := full.symm
    rw [step_of_prefixes running holds prefixes all,
      Machine.step_of_long_run awake there prefixes (Nat.le_of_eq full.symm),
      markStart_resumed, List.take_of_length_le (Nat.le_of_eq full), ← full]
    rfl

end

section

variable (m : Machine World)

theorem resumed_of :
    (of m).resumed = { m.markStart with pending := some (of m).prefixes } := by
  rw [resumed, of_markStart]
  rfl

/-- The fields are those of the pending prefixes, or both clear. -/
theorem prefixes_of : (of m).prefixes = m.pending.getD {} := by
  obtain ⟨_, _, _, _ | _, _, _⟩ := m <;> rfl

theorem of_fetched : (of m).fetched = m.fetched :=
  congrArg (Fetched.ofCode m.code) (prefixes_of m)

/-- To go on where nothing has begun is to begin. -/
theorem step_resumed_of (running : m.cpu.halted = false) : (of m).resumed.step = m.step := by
  have awake : (of m).resumed.cpu.halted = false := (of m).halted_resumed.trans running
  have fetched : (of m).resumed.fetched = m.fetched := (of m).fetched_resumed.trans (of_fetched m)
  cases found : m.fetched with
  | prefixes p length =>
      rw [Machine.step_of_prefixes running found,
        Machine.step_of_prefixes awake (fetched.trans found), markStart_resumed,
        resumed_of]
      rfl
  | undefined opcode =>
      rw [Machine.step_of_undefined running found,
        Machine.step_of_undefined awake (fetched.trans found), markStart_resumed,
        resumed_of]
      rfl
  | instruction i length =>
      rw [Machine.step_of_instruction running found,
        Machine.step_of_instruction awake (fetched.trans found), markStart_resumed,
        resumed_of]
      rfl

/-- A step with the three fields is the step of the machine. -/
theorem of_step : (of m).step = (m.step.1, of m.step.2) := by
  cases running : m.cpu.halted with
  | true =>
      rw [Machine.step_of_halted running]
      exact step_of_halted running
  | false =>
      have step := step_eq_resumed (r := of m) running
      rwa [step_resumed_of m running] at step

theorem of_runFor (limit : Nat) :
    (of m).runFor limit = ((m.runFor limit).1, of (m.runFor limit).2) := by
  induction limit generalizing m with
  | zero => rfl
  | succ limit ih =>
      rw [runFor, runFor_succ, of_step]
      dsimp only
      cases ending? m.step.1 with
      | some outcome => rfl
      | none => exact ih m.step.2

theorem of_run (limit : Option Nat) : (of m).run limit = ((m.run limit).1, of (m.run limit).2) :=
  of_runFor m _

end

end Runtime

end I8086
