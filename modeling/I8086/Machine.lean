import I8086.Execution
import I8086.Interrupt

/-!
# The machine

A processor, the world that host handlers work on, and the bus that maps interrupts to handlers.
A step executes one instruction with its prefixes. Since a program may consist of prefixes only, a
step takes at most `maxPrefixRun` of them; a longer run goes on in the next step, and `pending`
holds what it has collected. A run is a bounded iteration of steps.

An undefined instruction changes nothing but the record of where it began: IP goes back there and
its prefixes are dropped. IP also goes back if it is a handler that reports an illegal instruction,
but what the handler has changed by then stays changed.
-/

namespace I8086

/-- A processor with the host that serves its interrupts. -/
structure Machine (World : Type) where
  cpu : Cpu := {}
  world : World
  bus : Bus (Handler World) := .empty
  /-- The prefixes of an instruction whose opcode has not been read yet. -/
  pending : Option Prefixes := none
  /-- The number of steps that have succeeded. -/
  count : Nat := 0
  /-- Whether every step logs the state before it. -/
  tracing : Bool := false

/-- The result of a step. -/
inductive Step where
  | next
  | halted
  /-- An interrupt that nothing serves, or a function that its handler does not have. The program
  goes on after the instruction. -/
  | unhandled (vector : Byte) (function : Option Byte)
  /-- The program has ended with this code. -/
  | exited (code : Byte)
deriving DecidableEq

/-- Why a run has ended. -/
inductive Outcome where
  | halted
  | exited (code : Byte)
  | limitReached
deriving DecidableEq

/-- The result of a step whose interrupt a handler has served. -/
def Service.toStep (vector : Byte) : Service → Step
  | .done => .next
  | .unimplemented function => .unhandled vector (some function)
  | .terminate code => .exited code

/-- The segment that a program is loaded into. -/
def loadSegment : Word := 0x1000

/-- The offset of a program's first byte; the program segment prefix lies below it. -/
def loadOffset : Word := 0x0100

/-- The offset of the command tail in the program segment prefix. -/
def commandTail : Word := 0x0080

/-- The stack pointer that a program starts with. -/
def initialStack : Word := 0xFFFE

/-- The longest program: it ends below the word at the top of the stack. -/
def maxProgramSize : Nat := 0xFEFE

/-- The step counter has 64 bits; a run without a limit ends there at the latest. -/
def maxSteps : Nat := 0x10000000000000000

namespace Machine

variable {World : Type}

/-- The power-on state. Memory, world and handlers are kept. -/
def reset (m : Machine World) : Machine World :=
  { m with cpu := m.cpu.reset, pending := none, count := 0 }

/-- The segment that pending prefixes ask for. -/
def segmentOverride (m : Machine World) : Option Segment := m.pending.bind (·.segment)

/-- The repetition that pending prefixes ask for. -/
def repetition (m : Machine World) : Option Repetition := m.pending.bind (·.repetition)

/-! ## Interrupts -/

/-- Maps a range of vectors to a handler. -/
def registerHandler (m : Machine World) (first last : Byte) (handler : Handler World) :
    Machine World :=
  { m with bus := m.bus.register ⟨first, last, handler⟩ }

/-- Lets a handler serve an interrupt. -/
def serve (m : Machine World) (handler : Handler World) (vector : Byte) :
    Except Fault Step × Machine World :=
  match m with
  | { cpu, world, bus, pending, count, tracing } =>
    match handler.serve vector cpu world with
    | ⟨.ok service, cpu, world⟩ =>
      (.ok (service.toStep vector), { cpu, world, bus, pending, count, tracing })
    | ⟨.error fault, cpu, world⟩ =>
      (.error fault, { cpu, world, bus, pending, count, tracing })

/-- Delivers an interrupt: to the handler of its vector; otherwise to the routine that the vector
table names; and if the table has no entry, to nobody. -/
def raise (m : Machine World) (vector : Byte) : Except Fault Step × Machine World :=
  match m.bus.target? vector with
  | some handler => m.serve handler vector
  | none =>
    let (cs, ip) := m.cpu.readVector vector
    if cs = 0 ∧ ip = 0 then (.ok (.unhandled vector none), m)
    else (.ok .next, { m with cpu := m.cpu.enterInterrupt cs ip })

/-! ## Stepping -/

/-- The bytes at `CS:IP`. -/
def code (m : Machine World) : Code := fun k => m.cpu.peekByte (BitVec.ofNat 16 k)

/-- What stands at `CS:IP`, after the pending prefixes. -/
def fetched (m : Machine World) : Fetched := .ofCode m.code (m.pending.getD {})

/-- Takes note of where an instruction begins, unless its prefixes began earlier. -/
def markStart (m : Machine World) : Machine World :=
  if m.pending.isSome then m
  else { m with cpu.registers.opIp := m.cpu.registers.ip }

/-- Does what a signal asks for. -/
def follow (m : Machine World) : Signal → Except Fault Step × Machine World
  | .next => (.ok .next, m)
  | .halt => (.ok .halted, m)
  | .interrupt vector => m.raise vector

/-- Ends a step: one that has succeeded is counted, and where an illegal instruction is reported IP
goes back to the start of the instruction at hand. -/
def concluded (result : Except Fault Step × Machine World) : Except Fault Step × Machine World :=
  match result with
  | (.ok step, m) => (.ok step, { m with count := m.count + 1 })
  | (.error (.illegalInstruction opcode cs ip), m) =>
    (.error (.illegalInstruction opcode cs ip),
      { m with cpu := m.cpu.jump m.cpu.registers.opIp })
  | (.error fault, m) => (.error fault, m)

/-- Executes an instruction of a given length. -/
def perform (m : Machine World) (i : Instruction) (length : Nat) :
    Except Fault Step × Machine World :=
  match m with
  | { cpu, world, bus, tracing, count, .. } =>
    let (cpu, signal) := (cpu.advance (BitVec.ofNat 16 length)).execute i
    concluded (follow { cpu, world, bus, tracing, count, pending := none } signal)

/-- Gives up an instruction that is not defined. -/
def reject (m : Machine World) (opcode : Byte) : Except Fault Step × Machine World :=
  let start := m.cpu.registers.opIp
  (.error (.illegalInstruction opcode m.cpu.registers.cs start),
    { m with cpu := m.cpu.jump start, pending := none })

/-- Keeps prefixes for the next step. -/
def keepPrefixes (m : Machine World) (p : Prefixes) (length : Nat) :
    Except Fault Step × Machine World :=
  (.ok .next,
    { m with
      cpu := m.cpu.advance (BitVec.ofNat 16 length)
      pending := some p
      count := m.count + 1 })

/-- Executes one instruction with its prefixes. -/
def step (m : Machine World) : Except Fault Step × Machine World :=
  if m.cpu.halted then (.ok .halted, m)
  else
    let m := m.markStart
    match m.fetched with
    | .prefixes p length => m.keepPrefixes p length
    | .undefined opcode => m.reject opcode
    | .instruction i length => m.perform i length

/-- Takes at most `limit` steps, until one of them ends the program or fails. -/
def runFor : (limit : Nat) → Machine World → Except Fault Outcome × Machine World
  | 0, m => (.ok .limitReached, m)
  | limit + 1, m =>
    match m.step with
    | (.ok .next, m) => runFor limit m
    | (.ok (.unhandled _ _), m) => runFor limit m
    | (.ok .halted, m) => (.ok .halted, m)
    | (.ok (.exited code), m) => (.ok (.exited code), m)
    | (.error fault, m) => (.error fault, m)

/-- Runs with or without a limit on the number of steps. -/
def run (m : Machine World) (limit : Option Nat) : Except Fault Outcome × Machine World :=
  m.runFor (limit.getD maxSteps)

/-! ## Loading -/

/-- Copies bytes to a place in memory. -/
def loadAt (m : Machine World) (segment offset : Word) (data : List Byte) :
    Except Fault (Machine World) :=
  match m.cpu.memory.load (Address.translate segment offset).toNat data with
  | .ok memory => .ok { m with cpu.memory := memory }
  | .error fault => .error fault

/-- Memory with a program, the instruction that ends it at the start of its segment, where a
return from the program leads, and an empty command tail. -/
def programImage (memory : Memory) (program : List Byte) : Memory :=
  let placed (offset : Word) := Address.translate loadSegment offset
  ((memory.store (placed loadOffset) program).store (placed 0) [0xCD, 0x20]).store
    (placed commandTail) [0x00, 0x0D]

/-- Loads a flat program image and prepares its start; every segment register points at it. -/
def loadProgram (m : Machine World) (program : List Byte) : Except Fault (Machine World) :=
  if maxProgramSize < program.length then .error (.programTooLarge program.length)
  else
    match m with
    | { cpu, world, bus, tracing, .. } =>
      let cpu : Cpu :=
        { registers :=
            { cs := loadSegment, ds := loadSegment, es := loadSegment, ss := loadSegment
              ip := loadOffset, sp := initialStack }
          memory := programImage cpu.memory program }
      .ok { cpu := cpu.writeWord .ss initialStack 0, world, bus, tracing }

end Machine

end I8086
