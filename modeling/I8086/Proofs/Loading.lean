import I8086.Proofs.History

/-!
# Loading a program

A program is loaded into a segment of its own, between the bytes that end it when it returns and the
word at the top of its stack. `Runtime.installing` does it one assignment after the other, in
the order in which a runtime is changed, so that what has been assigned stays assigned if a later
assignment fails. None fails once the program is known to fit, and no two of them overlap; and what
the runtime was before shows only in the bytes that they leave alone.
-/

namespace I8086

/-! ## The segment of programs -/

/-- The linear address of the segment that programs are loaded into. -/
def loadBase : Address := 0x10000

/-- How far an address lies behind the start of that segment. -/
def loadDistance (a : Address) : Nat := (a - loadBase).toNat

namespace Memory

/-- Bytes stored in that segment are found at their distance from its start. -/
theorem get_store_loadSegment (m : Memory) (offset : Word) {data : List Byte}
    (fits : offset.toNat + data.length ≤ 0x10000) (a : Address) :
    (m.store (Address.translate loadSegment offset) data).get a =
      if offset.toNat ≤ loadDistance a then
        data[loadDistance a - offset.toNat]?.getD (m.get a)
      else m.get a := by
  have start : Address.translate loadSegment offset = loadBase + offset.setWidth 20 := rfl
  have near (inside : offset.toNat ≤ loadDistance a) :
      (a - (loadBase + offset.setWidth 20)).toNat = loadDistance a - offset.toNat := by
    unfold loadDistance at inside ⊢
    generalize loadBase = base at inside ⊢
    bv_omega
  have far (before : ¬offset.toNat ≤ loadDistance a) :
      data.length ≤ (a - (loadBase + offset.setWidth 20)).toNat := by
    unfold loadDistance at before
    generalize loadBase = base at before ⊢
    bv_omega
  rw [get_store _ _ _ (by simp only [memorySize]; omega), start]
  by_cases inside : offset.toNat ≤ loadDistance a
  · rw [if_pos inside]
    simp only [near inside]
    split
    · rename_i below
      rw [List.getElem?_eq_getElem below, Option.getD_some]
    · rename_i above
      rw [List.getElem?_eq_none (Nat.le_of_not_lt above), Option.getD_none]
  · rw [if_neg inside, dif_neg (Nat.not_lt_of_le (far inside))]

/-- So are two bytes. -/
theorem get_store_pair (m : Memory) (offset : Word) (u v : Byte)
    (fits : offset.toNat + 2 ≤ 0x10000) (a : Address) :
    (m.store (Address.translate loadSegment offset) [u, v]).get a =
      if loadDistance a = offset.toNat then u
      else if loadDistance a = offset.toNat + 1 then v
      else m.get a := by
  rw [get_store_loadSegment m offset (show offset.toNat + [u, v].length ≤ 0x10000 from fits)]
  by_cases first : loadDistance a = offset.toNat
  · simp [first]
  · by_cases second : loadDistance a = offset.toNat + 1
    · simp [second]
    · rw [if_neg first, if_neg second]
      split
      · rw [List.getElem?_eq_none (by simp only [List.length_cons, List.length_nil]; omega),
          Option.getD_none]
      · rfl

/-- Memory with a loaded program and the word at the top of its stack. -/
def startImage (memory : Memory) (program : List Byte) : Memory :=
  (Machine.programImage memory program).store (Address.translate loadSegment initialStack)
    [0x00, 0x00]

/-- The byte that loading a program puts at a distance from the start of its segment. -/
def startByte? (program : List Byte) (distance : Nat) : Option Byte :=
  if distance = 0xFFFE then some 0x00
  else if distance = 0xFFFF then some 0x00
  else if distance = 0x80 then some 0x00
  else if distance = 0x81 then some 0x0D
  else if distance = 0 then some 0xCD
  else if distance = 1 then some 0x20
  else if 0x100 ≤ distance then program[distance - 0x100]?
  else none

variable {memory : Memory} {program : List Byte}

/-- What is placed in the segment of a program that fits does not overlap. -/
theorem get_startImage (short : program.length ≤ maxProgramSize) (a : Address) :
    (memory.startImage program).get a =
      (startByte? program (loadDistance a)).getD (memory.get a) := by
  have fits : loadOffset.toNat + program.length ≤ 0x10000 :=
    Nat.le_trans (Nat.add_le_add_left short _) (by decide)
  have size : program.length ≤ 0xFEFE := short
  rw [startImage, Machine.programImage, get_store_pair _ _ _ _ (by decide),
    get_store_pair _ _ _ _ (by decide), get_store_pair _ _ _ _ (by decide),
    get_store_loadSegment _ _ fits]
  have stack : initialStack.toNat = 0xFFFE := rfl
  have tail : commandTail.toNat = 0x80 := rfl
  have first : (0 : Word).toNat = 0 := rfl
  have start : loadOffset.toNat = 0x100 := rfl
  simp only [stack, tail, first, start]
  generalize loadDistance a = d
  simp only [startByte?, apply_ite (Option.getD · (memory.get a)), Option.getD_some,
    Option.getD_none]

/-- The program stands in the image from its first to its last byte. -/
theorem get_startImage_program (short : program.length ≤ maxProgramSize) (i : Nat)
    (h : i < program.length) :
    (memory.startImage program).get (0x10100 + BitVec.ofNat 20 i) = program[i] := by
  have below : i < 0xFEFE := Nat.lt_of_lt_of_le h short
  have place : loadDistance (0x10100 + BitVec.ofNat 20 i) = 0x100 + i := by
    unfold loadDistance loadBase
    bv_omega
  have byte : startByte? program (0x100 + i) = some program[i] := by
    unfold startByte?
    rw [if_neg (by omega), if_neg (by omega), if_neg (by omega), if_neg (by omega),
      if_neg (by omega), if_neg (by omega), if_pos (by omega), Nat.add_sub_cancel_left,
      List.getElem?_eq_getElem h]
  rw [get_startImage short, place, byte, Option.getD_some]

/-- Where nothing is placed memory stays as it was. -/
theorem get_startImage_of_outside (short : program.length ≤ maxProgramSize) {a : Address}
    (behind : ¬(0x10100 ≤ a.toNat ∧ a.toNat < 0x10100 + program.length))
    (apart : a.toNat ∉ [0x10000, 0x10001, 0x10080, 0x10081, 0x1FFFE, 0x1FFFF]) :
    (memory.startImage program).get a = memory.get a := by
  have size : program.length ≤ 0xFEFE := short
  have place : loadDistance a = (a.toNat + 0xF0000) % 0x100000 := by
    unfold loadDistance loadBase
    bv_omega
  simp only [List.mem_cons, List.not_mem_nil, or_false, not_or] at apart
  have none : startByte? program (loadDistance a) = none := by
    unfold startByte?
    rw [if_neg (by omega), if_neg (by omega), if_neg (by omega), if_neg (by omega),
      if_neg (by omega), if_neg (by omega)]
    split
    · exact List.getElem?_eq_none (by omega)
    · rfl
  rw [get_startImage short, none, Option.getD_none]

end Memory

namespace Runtime

variable {World : Type}

/-- The runtime with a loaded program, ready to start it. -/
def loaded (r : Runtime World) (program : List Byte) : Runtime World where
  cpu :=
    { registers :=
        { cs := loadSegment, ds := loadSegment, es := loadSegment, ss := loadSegment
          ip := loadOffset, sp := initialStack }
      memory := r.cpu.memory.startImage program }
  world := r.world
  bus := r.bus
  tracing := r.tracing

/-- The word at the top of the stack lies at consecutive addresses. -/
theorem writeWord_initialStack {c : Cpu} (stack : c.registers.ss = loadSegment) :
    c.writeWord .ss initialStack 0 =
      { c with
        memory := c.memory.store (Address.translate loadSegment initialStack) [0x00, 0x00] } := by
  have place : c.address .ss initialStack = Address.translate loadSegment initialStack :=
    congrArg (Address.translate · initialStack) stack
  have stored := c.memory_writeWord_of_inner .ss (show initialStack ≠ 0xFFFF by decide) 0
  rw [Memory.storeWord, place] at stored
  have written : c.writeWord .ss initialStack 0 =
      { c with memory := (c.writeWord .ss initialStack 0).memory } := rfl
  rw [written, stored]
  rfl

/-- A program that fits is loaded. -/
theorem loadProgram_of_le (r : Runtime World) {program : List Byte}
    (short : program.length ≤ maxProgramSize) : r.loadProgram program = .ok (r.loaded program) := by
  rw [loadProgram, Machine.loadProgram, if_neg (Nat.not_lt_of_le short)]
  dsimp only [machine]
  rw [writeWord_initialStack rfl]
  rfl

theorem loadProgram_of_large (r : Runtime World) {program : List Byte}
    (large : maxProgramSize < program.length) :
    r.loadProgram program = .error (.programTooLarge program.length) := by
  rw [loadProgram, Machine.loadProgram, if_pos large]
  rfl

/-! ## One assignment after the other -/

/-- Copies bytes to an offset in the segment of programs. -/
def placing (offset : Word) (data : List Byte) : Action World Unit := do
  match (← get).loadAt loadSegment offset data with
  | .ok r => set r
  | .error fault => throw fault

/-- Loads a program and prepares its start. -/
def installing (program : List Byte) : Action World Unit := do
  if maxProgramSize < program.length then
    throw (.programTooLarge program.length)
  modify reset
  placing loadOffset program
  placing 0 [0xCD, 0x20]
  placing commandTail [0x00, 0x0D]
  modify fun r =>
    { r with cpu.registers :=
      { r.cpu.registers with
        cs := loadSegment, ds := loadSegment, es := loadSegment, ss := loadSegment
        ip := loadOffset, sp := initialStack } }
  modify fun r => { r with cpu := r.cpu.writeWord .ss initialStack 0 }

theorem loadAt_of_fits (r : Runtime World) (segment offset : Word) (data : List Byte)
    (fits : (Address.translate segment offset).toNat + data.length ≤ memorySize) :
    r.loadAt segment offset data = .ok { r with
      cpu.memory := r.cpu.memory.store (Address.translate segment offset) data } := by
  rw [loadAt, Machine.loadAt, Memory.load_toNat _ fits]
  rfl

/-- Bytes that fit are placed. -/
theorem attempt_placing (r : Runtime World) (offset : Word) (data : List Byte)
    (fits : (Address.translate loadSegment offset).toNat + data.length ≤ memorySize) :
    r.attempt (placing offset data) = (.ok (), { r with
      cpu.memory := r.cpu.memory.store (Address.translate loadSegment offset) data }) := by
  have placed := loadAt_of_fits r loadSegment offset data fits
  have got : r.attempt (placing offset data) =
      r.attempt (match r.loadAt loadSegment offset data with
        | .ok r => set r
        | .error fault => throw fault) := rfl
  rw [got, placed]
  rfl

/-- A program that is too long is refused before anything is changed. -/
theorem attempt_installing_of_large (r : Runtime World) {program : List Byte}
    (large : maxProgramSize < program.length) :
    r.attempt (installing program) = (.error (.programTooLarge program.length), r) := by
  rw [installing, if_pos large]
  rfl

theorem attempt_installing_of_le (r : Runtime World) {program : List Byte}
    (short : program.length ≤ maxProgramSize) :
    r.attempt (installing program) = (.ok (), r.loaded program) := by
  have room : (Address.translate loadSegment loadOffset).toNat + program.length ≤ memorySize :=
    Nat.le_trans (Nat.add_le_add_left short _) (by decide)
  rw [installing, if_neg (Nat.not_lt_of_le short)]
  refine (attempt_bind_of_ok (attempt_modify r reset) _).trans ?_
  refine (attempt_bind_of_ok (attempt_placing _ _ _ room) _).trans ?_
  refine (attempt_bind_of_ok (attempt_placing _ _ _ (by decide)) _).trans ?_
  refine (attempt_bind_of_ok (attempt_placing _ _ _ (by decide)) _).trans ?_
  refine (attempt_bind_of_ok (attempt_modify _ _) _).trans ?_
  rw [attempt_modify, writeWord_initialStack rfl]
  rfl

/-- The assignments come to the same as the program loaded at once, and to nothing if it is
refused. -/
theorem attempt_installing (r : Runtime World) (program : List Byte) :
    r.attempt (installing program) =
      match r.loadProgram program with
      | .ok s => (.ok (), s)
      | .error fault => (.error fault, r) := by
  by_cases short : program.length ≤ maxProgramSize
  · rw [attempt_installing_of_le r short, loadProgram_of_le r short]
  · have large := Nat.lt_of_not_le short
    rw [attempt_installing_of_large r large, loadProgram_of_large r large]

end Runtime

/-! ## Tracing has no part in it -/

namespace Machine

variable {World : Type} (m : Machine World) (tracing : Bool)

/-- The machine with tracing on or off. -/
def traced : Machine World := { m with tracing }

theorem raise_traced (vector : Byte) :
    (m.traced tracing).raise vector = ((m.raise vector).1, (m.raise vector).2.traced tracing) := by
  cases claimed : m.bus.target? vector with
  | some handler =>
      have here : (m.traced tracing).bus.target? vector = some handler := claimed
      rw [raise_of_target here, raise_of_target claimed, serve_eq, serve_eq]
      rfl
  | none =>
      have here : (m.traced tracing).bus.target? vector = none := claimed
      have vectors : (m.traced tracing).cpu.readVector vector = m.cpu.readVector vector := rfl
      by_cases empty : m.cpu.readVector vector = (0, 0)
      · rw [raise_of_empty here (vectors.trans empty), raise_of_empty claimed empty]
      · rw [raise_of_entry here (vectors ▸ empty), raise_of_entry claimed empty]
        rfl

theorem follow_traced (s : Signal) :
    (m.traced tracing).follow s = ((m.follow s).1, (m.follow s).2.traced tracing) := by
  cases s with
  | next => rfl
  | halt => rfl
  | interrupt vector => exact raise_traced m tracing vector

theorem concluded_traced (result : Except Fault Step × Machine World) :
    concluded (result.1, result.2.traced tracing) =
      ((concluded result).1, (concluded result).2.traced tracing) := by
  obtain ⟨(_ | _ | _ | _) | _, _⟩ := result <;> rfl

theorem perform_traced (i : Instruction) (length : Nat) :
    (m.traced tracing).perform i length =
      ((m.perform i length).1, (m.perform i length).2.traced tracing) := by
  have signal : (m.traced tracing).signal i length = m.signal i length := rfl
  have executed : (m.traced tracing).executed i length =
      (m.executed i length).traced tracing := rfl
  rw [perform_eq, perform_eq, signal, executed, follow_traced, concluded_traced]

theorem markStart_traced : (m.traced tracing).markStart = m.markStart.traced tracing := by
  rw [markStart_eq, markStart_eq]
  rfl

/-- A machine that is not traced takes the same steps. -/
theorem step_traced : (m.traced tracing).step = (m.step.1, m.step.2.traced tracing) := by
  have marked := m.markStart_traced tracing
  cases running : m.cpu.halted with
  | true =>
      have halted : (m.traced tracing).cpu.halted = true := running
      rw [step_of_halted halted, step_of_halted running]
  | false =>
      have awake : (m.traced tracing).cpu.halted = false := running
      have same : (m.traced tracing).fetched = m.fetched := rfl
      cases fetched : m.fetched with
      | prefixes p length =>
          rw [step_of_prefixes awake (same.trans fetched), step_of_prefixes running fetched, marked]
          rfl
      | undefined opcode =>
          rw [step_of_undefined awake (same.trans fetched), step_of_undefined running fetched,
            marked]
          rfl
      | instruction i length =>
          rw [step_of_instruction awake (same.trans fetched), step_of_instruction running fetched,
            marked, perform_traced]

end Machine

namespace Runtime

variable {World : Type} (r : Runtime World) (tracing : Bool)

/-- The runtime with tracing on or off. -/
def traced : Runtime World := { r with tracing }

theorem resumed_traced : (r.traced tracing).resumed = r.resumed.traced tracing := by
  rw [resumed, resumed, markStart_eq, markStart_eq]
  rfl

/-- A runtime that is not traced takes the same steps. -/
theorem step_traced : (r.traced tracing).step = (r.step.1, r.step.2.traced tracing) := by
  cases running : r.cpu.halted with
  | true =>
      have halted : (r.traced tracing).cpu.halted = true := running
      rw [step_of_halted halted, step_of_halted running]
  | false =>
      have awake : (r.traced tracing).cpu.halted = false := running
      rw [step_eq_resumed awake, step_eq_resumed running, resumed_traced, Machine.step_traced]
      rfl

theorem runFor_traced (limit : Nat) :
    (r.traced tracing).runFor limit =
      ((r.runFor limit).1, (r.runFor limit).2.traced tracing) := by
  induction limit generalizing r with
  | zero => rfl
  | succ limit ih =>
      rw [runFor, runFor, step_traced]
      dsimp only
      cases Machine.ending? r.step.1 with
      | some outcome => rfl
      | none => exact ih r.step.2

theorem apply_traced (q : Request World) :
    (r.traced tracing).apply q = (r.apply q).traced tracing := by
  cases q with
  | reset => rfl
  | loadProgram program =>
      unfold apply loadProgram Machine.loadProgram
      dsimp only
      split <;> rfl
  | loadAt segment offset data =>
      unfold apply loadAt Machine.loadAt
      dsimp only
      rw [show (r.traced tracing).machine.cpu = r.machine.cpu from rfl]
      cases r.machine.cpu.memory.load (Address.translate segment offset).toNat data <;> rfl
  | registerHandler first last handler => rfl
  | raise vector =>
      have machine : (r.traced tracing).machine = r.machine.traced tracing := rfl
      unfold apply raise
      dsimp only
      rw [machine, Machine.raise_traced]
      rfl
  | step => exact congrArg Prod.snd (step_traced r tracing)
  | run limit => exact congrArg Prod.snd (runFor_traced r tracing _)

theorem after_traced (requests : List (Request World)) :
    (r.traced tracing).after requests = (r.after requests).traced tracing := by
  induction requests generalizing r with
  | nil => rfl
  | cons q requests ih =>
      have next := congrArg (·.after requests) (apply_traced r tracing q)
      exact next.trans (ih _)

/-- Loading a program is complete and atomic. Of the runtime before, however it got where it is, a
program that fits leaves nothing but memory apart from the bytes that are placed, the handlers, and
what they work on. So two runtimes that have these in common do the same from then on, with the
same results, whatever is asked of them. -/
theorem loadProgram_complete (r : Runtime World) (program : List Byte) :
    r.attempt (installing program) =
      (match r.loadProgram program with
        | .ok s => (.ok (), s)
        | .error fault => (.error fault, r)) ∧
    (0xFEFE < program.length →
      r.loadProgram program = .error (.programTooLarge program.length)) ∧
    (program.length ≤ 0xFEFE → ∃ s, r.loadProgram program = .ok s ∧
      (∀ i (h : i < program.length),
        s.cpu.memory.get (0x10100 + BitVec.ofNat 20 i) = program[i]) ∧
      s.cpu.memory.get 0x10000 = 0xCD ∧ s.cpu.memory.get 0x10001 = 0x20 ∧
      s.cpu.memory.get 0x10080 = 0x00 ∧ s.cpu.memory.get 0x10081 = 0x0D ∧
      s.cpu.memory.get 0x1FFFE = 0x00 ∧ s.cpu.memory.get 0x1FFFF = 0x00 ∧
      (∀ a : Address, ¬(0x10100 ≤ a.toNat ∧ a.toNat < 0x10100 + program.length) →
        a.toNat ∉ [0x10000, 0x10001, 0x10080, 0x10081, 0x1FFFE, 0x1FFFF] →
        s.cpu.memory.get a = r.cpu.memory.get a) ∧
      s.cpu.registers =
        { cs := 0x1000, ds := 0x1000, es := 0x1000, ss := 0x1000, ip := 0x0100, sp := 0xFFFE } ∧
      s.cpu.flags = .clear ∧ s.cpu.halted = false ∧ s.segmentOverride = none ∧
      s.repetition = none ∧ s.prefixPending = false ∧ s.count = 0 ∧
      s.world = r.world ∧ s.bus = r.bus ∧ s.tracing = r.tracing ∧
      ∀ r' : Runtime World, r'.cpu.memory = r.cpu.memory → r'.bus = r.bus →
        r'.world = r.world → ∃ s', r'.loadProgram program = .ok s' ∧
          ∀ requests,
            let a := s.after requests
            let b := s'.after requests
            b = { a with tracing := b.tracing } ∧ b.step.1 = a.step.1 ∧
              ∀ limit, (b.run limit).1 = (a.run limit).1) := by
  refine ⟨r.attempt_installing program, r.loadProgram_of_large, fun short => ?_⟩
  have placed (a : Address) (v : Byte)
      (byte : Memory.startByte? program (loadDistance a) = some v) :
      (r.loaded program).cpu.memory.get a = v := by
    refine (Memory.get_startImage short a).trans ?_
    rw [byte, Option.getD_some]
  refine ⟨r.loaded program, r.loadProgram_of_le short,
    Memory.get_startImage_program short, placed _ _ rfl, placed _ _ rfl, placed _ _ rfl,
    placed _ _ rfl, placed _ _ rfl, placed _ _ rfl,
    fun a => Memory.get_startImage_of_outside short, rfl, rfl, rfl, rfl, rfl, rfl, rfl, rfl, rfl,
    rfl, ?_⟩
  intro r' memory bus world
  have same : r'.loaded program = (r.loaded program).traced r'.tracing := by
    rw [loaded, memory, bus, world]
    rfl
  refine ⟨r'.loaded program, r'.loadProgram_of_le short, fun requests => ?_⟩
  intro a b
  have alike : b = a.traced r'.tracing := by
    rw [← after_traced, ← same]
  rw [alike]
  refine ⟨rfl, ?_, fun limit => ?_⟩
  · rw [step_traced]
  · rw [run, runFor_traced]
    rfl

/-- The longest program, loaded into a runtime that has been halted in a run of prefixes: its last
byte lies right below the word at the top of the stack. -/
theorem loadProgram_complete_of_longest :
    let r : Runtime Unit :=
      { cpu := { halted := true }, world := (), segmentOverride := some .es, prefixPending := true }
    ∃ s, r.loadProgram (List.replicate 0xFEFE 0x90) = .ok s ∧
      s.cpu.memory.get 0x1FFFD = 0x90 ∧ s.cpu.memory.get 0x1FFFE = 0x00 ∧
      s.cpu.halted = false ∧ s.segmentOverride = none ∧ s.prefixPending = false := by
  intro r
  have size : (List.replicate 0xFEFE (0x90 : Byte)).length = 0xFEFE := List.length_replicate
  obtain ⟨s, installed, bytes, _, _, _, _, stack, _, _, _, _, running, segment, _, pending, _⟩ :=
    (loadProgram_complete r (List.replicate 0xFEFE 0x90)).2.2 (Nat.le_of_eq size)
  have last := bytes 0xFEFD (by rw [size]; decide)
  rw [List.getElem_replicate] at last
  exact ⟨s, installed, last, stack, running, segment, pending⟩

end Runtime

end I8086
