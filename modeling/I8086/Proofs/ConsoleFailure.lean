import I8086.Proofs.ServiceScope
import I8086.Proofs.Synonyms

/-!
# When the console fails

A service fails if the console does, wherever it is in its work: when it has read a key and cannot
show it, or when it has written some bytes of many. It has assigned nothing by then, so the program
finds everything as it was when it looks at its registers again: the instruction has been passed,
its prefixes are used up, the step does not count, and the console has a first part of the bytes.
-/

namespace I8086

open Dos

/-- A service that makes its assignments one after the other fails before the first of them. -/
theorem Dos.attempt_serving_failed {C : Type} [Console C] {config : Config} {vector : Byte}
    {c : Cpu} {t : Terminal C} {fault : Fault}
    (failed : (serve config vector c t).service = .error fault) :
    attempt (serving config vector) c t =
      (.error fault, c, (serve config vector c t).world) := by
  have same := ((admits_serve config vector c t).failed fault failed).1
  rw [attempt_serving, outcome, failed, same]

namespace Machine

variable {C : Type} [Console C] {config : Config} {m m' : Machine (Terminal C)} {bytes : List Byte}
  {reason : String}

/-- The instruction that asks for interrupt 21h. -/
def serviceCall : List Byte := [0xCD, serviceVector]

/-- Behind its prefixes and before it is served, the instruction has been passed. -/
def pastCall (m : Machine (Terminal C)) (bytes : List Byte) : Machine (Terminal C) :=
  { m with
    cpu.registers.ip := m.cpu.registers.ip + BitVec.ofNat 16 (bytes.length + serviceCall.length)
    cpu.registers.opIp := m.instructionStart
    pending := none }

theorem step_of_serviceCall (running : m.cpu.halted = false)
    (served : m.bus.target? serviceVector = some (handler C config))
    (holds : m.code.Holds (bytes ++ serviceCall)) (prefixes : ∀ b ∈ bytes, b.IsPrefix)
    (short : bytes.length < maxPrefixRun) :
    m.step = concluded ((m.pastCall bytes).serve (handler C config) serviceVector) := by
  have fetched : m.fetched = .instruction (.interrupt serviceVector)
      (bytes.length + serviceCall.length) := fetched_of_decode? holds prefixes short rfl
  have executed : m.markStart.executed (.interrupt serviceVector)
      (bytes.length + serviceCall.length) = m.pastCall bytes := by
    rw [markStart_eq]
    rfl
  have claimed : (m.pastCall bytes).bus.target? serviceVector = some (handler C config) := served
  rw [step_of_interrupt running fetched, executed, raise_of_target claimed]

theorem concluded_eq_io {World : Type} {result : Except Fault Step × Machine World}
    {m : Machine World} (failed : concluded result = (.error (.io reason), m)) :
    result = (.error (.io reason), m) := by
  obtain ⟨outcome, m'⟩ := result
  obtain rfl : outcome = .error (.io reason) :=
    (fst_concluded (outcome, m')).symm.trans (congrArg Prod.fst failed)
  exact failed

/-- A handler that gives up leaves what it has done until then. -/
theorem serve_eq_error {World : Type} {m m' : Machine World} {handler : Handler World}
    {vector : Byte} {fault : Fault} (failed : m.serve handler vector = (.error fault, m')) :
    (handler.serve vector m.cpu m.world).service = .error fault ∧
      { m with
        cpu := (handler.serve vector m.cpu m.world).cpu
        world := (handler.serve vector m.cpu m.world).world } = m' := by
  rw [serve_eq] at failed
  cases replied : (handler.serve vector m.cpu m.world).service with
  | ok service =>
      rw [replied] at failed
      cases failed
  | error other =>
      rw [replied] at failed
      cases failed
      exact ⟨rfl, rfl⟩

/-- A step that fails with its host is neither that of a stopped machine nor one that keeps
prefixes. -/
theorem serve_of_failed_step (served : m.bus.target? serviceVector = some (handler C config))
    (holds : m.code.Holds (bytes ++ serviceCall)) (prefixes : ∀ b ∈ bytes, b.IsPrefix)
    (failed : m.step = (.error (.io reason), m')) :
    (m.pastCall bytes).serve (handler C config) serviceVector = (.error (.io reason), m') := by
  have error : m.step.1 = .error (.io reason) := congrArg Prod.fst failed
  have running : m.cpu.halted = false := (step_eq_error error).1
  -- A step that is filled by its prefixes keeps them and does not fail.
  have short : bytes.length < maxPrefixRun := by
    refine Nat.lt_of_not_le fun long => ?_
    rw [step_of_long_run running holds.left prefixes long] at error
    cases error
  rw [step_of_serviceCall running served holds prefixes short] at failed
  exact concluded_eq_io failed

/-- When the host fails in the middle of a service, the processor is as if the service had never
been asked for, but the instruction has been passed, whatever the console has done. So it is if the
service makes its assignments one after the other. A console whose output can be looked at has taken
a first part of what the service was to write. -/
theorem step_console_failure
    (served : m.bus.target? serviceVector = some (handler C config))
    (holds : m.code.Holds (bytes ++ [0xCD, 0x21])) (prefixes : ∀ b ∈ bytes, b.IsPrefix)
    (failed : m.step = (.error (.io reason), m')) :
    let c := m.cpu
    let past : Cpu :=
      { c with
        registers.ip := c.registers.ip + BitVec.ofNat 16 (bytes.length + 2)
        registers.opIp := m.instructionStart }
    m'.cpu = past ∧ m'.pending = none ∧ m'.segmentOverride = none ∧ m'.repetition = none ∧
    m'.count = m.count ∧ m'.bus = m.bus ∧
    attempt (serving config serviceVector) past m.world =
      (.error (.io reason), past, m'.world) ∧
    ∀ [Console.Recording C], ∃ sent, sent <+: (callScope serviceVector c).writing.bytes c m.world ∧
      m'.world.output = m.world.output ++ sent := by
  intro c past
  obtain ⟨refused, rfl⟩ := serve_eq_error (serve_of_failed_step served holds prefixes failed)
  have inOrder : attempt (serving config serviceVector) past m.world =
      (.error (.io reason), past, (Dos.serve config serviceVector past m.world).world) :=
    attempt_serving_failed refused
  have within := admits_serve config serviceVector past m.world
  refine ⟨(within.failed _ refused).1, rfl, rfl, rfl, rfl, rfl, inOrder, ?_⟩
  intro recording
  obtain ⟨sent, part, shown, -⟩ := within.shows
  exact ⟨sent, part, shown⟩

/-- A console that shows bytes in one piece, and then fails to say that it has. -/
structure Unflushed where
  output : List Byte := []

instance : Console Unflushed where
  readKey s := (.error "end of input", s)
  pollKey s := (.error "end of input", s)
  writeByte s b := (.error "not flushed", ⟨s.output ++ [b]⟩)
  writeBytes s bytes := (.error "not flushed", ⟨s.output ++ bytes⟩)

instance : Console.Recording Unflushed where
  output := Unflushed.output
  shows_writeByte _ b := ⟨[b], List.prefix_rfl, rfl, fun _ => rfl⟩
  shows_writeBytes _ bytes := ⟨bytes, List.prefix_rfl, rfl, fun _ => rfl⟩
  output_readKey _ := rfl
  output_pollKey _ := rfl

/-- Two bytes have been written behind a prefix, when the console fails. -/
theorem step_console_failure_of_unflushed :
    let memory := Memory.zero.store (Address.translate 0x1000 0x0100) [0x26, 0xCD, 0x21]
    let m : Machine (Terminal Unflushed) :=
      { cpu :=
          { registers := { ax := 0x4000, bx := 1, cx := 2, cs := 0x1000, ip := 0x0100 }, memory }
        world := { console := {} }
        bus := .register .empty ⟨terminateVector, serviceVector, handler Unflushed {}⟩ }
    ∃ m', m.step = (.error (.io "not flushed"), m') ∧
      m'.cpu = { m.cpu with registers.ip := 0x0103, registers.opIp := 0x0100 } ∧
      ∃ sent, sent <+: dataBytes m.cpu 0 2 ∧ sent.length = 2 ∧ m'.world.output = sent := by
  intro memory m
  have holds : m.code.Holds ([0x26] ++ [0xCD, 0x21]) := code_holds_store (m := m) rfl (by decide)
  have number : m.cpu.registers.high .ax = 0x40 := show Word.high 0x4000 = 0x40 by decide
  let past := m.pastCall [0x26]
  let shown : Terminal Unflushed := { console := ⟨dataBytes m.cpu 0 2⟩ }
  have answer : (handler Unflushed {}).serve serviceVector (m.pastCall [0x26]).cpu
      (m.pastCall [0x26]).world = ⟨.error (.io "not flushed"), past.cpu, shown⟩ := by
    refine (serve_of_number (f := .writeFile) ?_).trans ?_
    · rw [show past.cpu.registers.high .ax = 0x40 from number]
      rfl
    · rw [Dos.perform, writeHandle, if_pos (.inl rfl)]
      rfl
  have failed : m.step = (.error (.io "not flushed"), { past with world := shown }) := by
    rw [step_of_serviceCall rfl rfl holds (by decide) (by decide), serve_eq, answer]
    rfl
  have text :
      (callScope serviceVector m.cpu).writing.bytes m.cpu m.world = dataBytes m.cpu 0 2 := by
    rw [callScope, if_pos rfl, number]
    rfl
  obtain ⟨cpu, -, -, -, -, -, -, output⟩ := step_console_failure rfl holds (by decide) failed
  obtain ⟨sent, part, same⟩ := output
  refine ⟨_, failed, cpu, sent, text ▸ part, ?_, same⟩
  have all : dataBytes m.cpu 0 2 = sent := same
  rw [← all, length_dataBytes]

end Machine

end I8086
