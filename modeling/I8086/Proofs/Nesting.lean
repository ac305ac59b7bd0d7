import I8086.Proofs.InstructionPointer
import I8086.Proofs.Stack

/-!
# Calls, interrupts and the way back

Every call and every interrupt that enters a routine leaves a frame on the stack, and for each kind
of frame there is an instruction that takes it off again. However these are nested, the return that
ends the outermost routine finds the frame as it was left, since what has been pushed in between
lies below it. `restored_of_nesting` says what follows for the processor: it is as before the call,
but for IP, which is behind it, and for the bytes of memory that the stack has used.
-/

namespace I8086

/-! ## Leaving a routine -/

/-- The instruction that takes a frame off the stack. -/
def Frame.closing : Frame → Instruction
  | near => .ret false 0
  | far => .ret true 0
  | interrupt => .iret

namespace Cpu

/-- The later processor has what the earlier one has, but for its place in the code segment and for
the `n` bytes below the top of the stack. -/
structure Restored (n : Nat) (c c' : Cpu) : Prop where
  registers : c'.registers = c.registers.relocate c'.registers.ip c'.registers.opIp
  flags : c'.flags = c.flags
  halted : c'.halted = c.halted
  memory : ∀ a, ¬c.UnderTop n a → c'.memory.get a = c.memory.get a

variable {c c₁ c' : Cpu} {n k : Nat} {frame : Frame} {cs ip : Word} {a : Address}

namespace Restored

theorem refl (c : Cpu) : Restored 0 c c := ⟨rfl, rfl, rfl, fun _ _ => rfl⟩

theorem mono (h : Restored n c c') (le : n ≤ k) : Restored k c c' where
  registers := h.registers
  flags := h.flags
  halted := h.halted
  memory a outside := h.memory a fun under => outside (under.mono le)

/-- The place in the code segment does not matter. -/
theorem relocate (h : Restored n c c') (x y : Word) : Restored n c (c'.relocate x y) where
  registers := by
    rw [registers_relocate, h.registers]
    rfl
  flags := h.flags
  halted := h.halted
  memory := h.memory

theorem of_relocate {x y : Word} (h : Restored n (c.relocate x y) c') : Restored n c c' where
  registers := h.registers
  flags := h.flags
  halted := h.halted
  memory := h.memory

/-- Processors that agree on the stack registers have the same bytes below the top. -/
theorem underTop_iff (h : Restored n c c') : c'.UnderTop k a ↔ c.UnderTop k a := by
  unfold UnderTop address Registers.segment
  rw [h.registers]
  rfl

theorem trans (h : Restored n c c₁) (h₁ : Restored n c₁ c') : Restored n c c' where
  registers := by
    rw [h₁.registers, h.registers]
    rfl
  flags := h₁.flags.trans h.flags
  halted := h₁.halted.trans h.halted
  memory a outside :=
    (h₁.memory a fun under => outside (h.underTop_iff.mp under)).trans (h.memory a outside)

end Restored

/-- What lies below the top once a frame has been left lay there before, deeper by its size. -/
theorem UnderTop.of_enter (under : (c.enter frame cs ip).UnderTop n a) :
    c.UnderTop (frame.size + n) a := by
  obtain ⟨k, pos, within, rfl⟩ := under
  refine ⟨frame.size + k, by omega, by omega, ?_⟩
  have offset : (c.enter frame cs ip).registers.sp - BitVec.ofNat 16 k =
      c.registers.sp - BitVec.ofNat 16 (frame.size + k) := by
    rw [registers_enter, BitVec.ofNat_add]
    bv_omega
  rw [offset, address, registers_enter]
  rfl

/-- The words of the frame are still there when the routine has left what is above its own stack
alone. -/
theorem readWord_of_restored (inside : Restored n (c.enter frame cs ip) c')
    (room : frame.size + n ≤ 0x10000) {i : Nat} (h : i < (frame.words c).length) :
    c'.readWord .ss (c'.registers.sp + BitVec.ofNat 16 (frame.size - 2 * (i + 1))) =
      (frame.words c)[i] := by
  have length := frame.length_words c
  have top : c'.registers.sp = (c.enter frame cs ip).registers.sp := by
    rw [inside.registers]
    rfl
  have segment : c'.registers.ss = (c.enter frame cs ip).registers.ss := by
    rw [inside.registers]
    rfl
  have offset : (c.enter frame cs ip).registers.sp +
      BitVec.ofNat 16 (frame.size - 2 * (i + 1)) =
        c.registers.sp - BitVec.ofNat 16 (2 * (i + 1)) := by
    rw [registers_enter]
    bv_omega
  rw [top, readWord_of_kept segment inside.memory (by omega), offset]
  exact readWord_enter frame h

/-- The segment where execution goes on once a frame has been taken off. -/
def backSegment (c : Cpu) : Frame → Word
  | .near => c.registers.cs
  | .far | .interrupt => c.readWord .ss (c.registers.sp + 2)

/-- The flags that execution goes on with. -/
def backFlags (c : Cpu) : Frame → Flags
  | .near | .far => c.flags
  | .interrupt => .unpack (c.readWord .ss (c.registers.sp + 4))

/-- Takes a frame off the stack and continues where it says. -/
def leave (c : Cpu) (frame : Frame) : Cpu :=
  { c with
    registers :=
      { c.registers with
        sp := c.registers.sp + BitVec.ofNat 16 frame.size
        cs := c.backSegment frame
        ip := c.readWord .ss c.registers.sp }
    flags := c.backFlags frame }

theorem execute_closing (c : Cpu) (frame : Frame) :
    (c.execute frame.closing).1 = c.leave frame := by
  have two : c.registers.sp + 2 + 0 = c.registers.sp + 2 := BitVec.add_zero _
  have four : c.registers.sp + 2 + 2 = c.registers.sp + 4 := BitVec.add_assoc _ _ _
  have six : c.registers.sp + 4 + 2 = c.registers.sp + 6 := BitVec.add_assoc _ _ _
  cases frame with
  | near => exact congrArg (fun sp => (c.leave .near).setRegister .sp sp) two
  | far =>
      refine congrArg (fun sp => (c.leave .far).setRegister .sp sp) ?_
      exact (BitVec.add_zero _).trans four
  | interrupt =>
      show
        { c.leave .interrupt with
          flags := .unpack (c.readWord .ss (c.registers.sp + 2 + 2))
          registers :=
            { (c.leave .interrupt).registers with sp := c.registers.sp + 2 + 2 + 2 } } = _
      rw [four, six]
      rfl

/-- A frame is taken off as it was left, if the routine has kept all but its own stack. -/
theorem restored_leave (inside : Restored n (c.enter frame cs ip) c')
    (room : frame.size + n ≤ 0x10000) (stays : frame = .near → cs = c.registers.cs) :
    Restored (frame.size + n) c (c'.leave frame) ∧
      (c'.leave frame).registers.ip = c.registers.ip := by
  have word {i : Nat} (h : i < (frame.words c).length) :=
    readWord_of_restored inside room h
  have back : c'.readWord .ss c'.registers.sp = c.registers.ip := by
    rw [← BitVec.add_zero c'.registers.sp]
    cases frame with
    | near => exact word (show 0 < 1 by decide)
    | far => exact word (show 1 < 2 by decide)
    | interrupt => exact word (show 2 < 3 by decide)
  have segment : c'.backSegment frame = c.registers.cs := by
    cases frame with
    | near =>
        show c'.registers.cs = _
        rw [inside.registers, ← stays rfl]
        rfl
    | far => exact word (show 0 < 2 by decide)
    | interrupt => exact word (show 1 < 3 by decide)
  have flags : c'.backFlags frame = c.flags := by
    cases frame with
    | near => exact inside.flags
    | far => exact inside.flags
    | interrupt =>
        have pushed := congrArg Flags.unpack (word (show 0 < 3 by decide))
        exact pushed.trans c.flags.unpack_pushed
  refine ⟨⟨?_, flags, inside.halted.trans (c.halted_enter frame cs ip), fun a outside => ?_⟩, back⟩
  · have top : c.registers.sp - BitVec.ofNat 16 frame.size + BitVec.ofNat 16 frame.size =
        c.registers.sp := BitVec.sub_add_cancel _ _
    simp only [leave, back, segment]
    rw [inside.registers, registers_enter]
    simp only [Registers.relocate, top]
  · exact (inside.memory a fun under => outside under.of_enter).trans
      (get_enter frame fun under => outside (under.mono (Nat.le_add_right _ _)))

end Cpu

/-! ## Transfers of control -/

namespace Machine

variable {World : Type}

/-- The next step executes this instruction; `length` counts the bytes from IP on. -/
structure Executes (m : Machine World) (i : Instruction) (length : Nat) : Prop where
  running : m.cpu.halted = false
  fetched : m.fetched = .instruction i length

/-- No handler has the vector, and the vector table names a routine for it. -/
structure EntersRoutine (m : Machine World) (vector : Byte) : Prop where
  free : m.bus.target? vector = none
  entry : m.cpu.readVector vector ≠ (0, 0)

/-- The offset behind an instruction of this length at `CS:IP`. -/
def behind (m : Machine World) (length : Nat) : Word :=
  m.cpu.registers.ip + BitVec.ofNat 16 length

/-- A transfer of control that leaves a frame on the stack, with the offset to which the way back
leads: a call of one of four kinds, an instruction that asks for an interrupt, or an interrupt that
is raised from outside. Interrupts count if they enter a routine of the program. -/
inductive Opens (m : Machine World) : Frame → Word → Machine World → Prop where
  | call {distance : Word} {length : Nat} :
      m.Executes (.call distance) length → Opens m .near (m.behind length) m.step.2
  | callTo {target : Place} {length : Nat} :
      m.Executes (.callTo target) length → Opens m .near (m.behind length) m.step.2
  | callFar {cs ip : Word} {length : Nat} :
      m.Executes (.callFar cs ip) length → Opens m .far (m.behind length) m.step.2
  | callToPointer {a : EffectiveAddress} {length : Nat} :
      m.Executes (.callToPointer a) length → Opens m .far (m.behind length) m.step.2
  | interrupt {vector : Byte} {length : Nat} :
      m.Executes (.interrupt vector) length → m.EntersRoutine vector →
        Opens m .interrupt (m.behind length) m.step.2
  | into {length : Nat} :
      m.Executes .into length → m.cpu.flags.overflow = true → m.EntersRoutine overflowVector →
        Opens m .interrupt (m.behind length) m.step.2
  | raise {vector : Byte} :
      m.EntersRoutine vector → Opens m .interrupt m.cpu.registers.ip (m.raise vector).2

/-- The return that takes off a frame of this kind. -/
inductive Closes (m : Machine World) (frame : Frame) : Machine World → Prop where
  | intro {length : Nat} : m.Executes frame.closing length → Closes m frame m.step.2

/-- A well-bracketed sequence of transfers, with the number of bytes of the stack that are in use at
once. A long run of prefixes takes steps of its own before the transfer that it belongs to. -/
inductive Nested : Machine World → Nat → Machine World → Prop where
  | nil (m : Machine World) : Nested m 0 m
  | prefixes {m m₁ : Machine World} {depth length : Nat} {p : Prefixes} :
      Nested m depth m₁ → m₁.cpu.halted = false → m₁.fetched = .prefixes p length →
        Nested m depth m₁.step.2
  | bracket {m m₁ m₂ m₃ m' : Machine World} {before inside : Nat} {frame : Frame} {next : Word} :
      Nested m before m₁ → Opens m₁ frame next m₂ → Nested m₂ inside m₃ → Closes m₃ frame m' →
        Nested m (max before (frame.size + inside)) m'

variable {m m₁ m₂ m₃ m' : Machine World} {frame : Frame} {next : Word}

/-- An instruction without prefixes is executed if its bytes can be decoded. -/
theorem executes_of_opcode (op : Opcode) {b : Byte} {i : Instruction} {length : Nat}
    (running : m.cpu.halted = false) (first : m.code 0 = b) (opcode : Opcode.ofByte? b = some op)
    (plain : ¬b.IsPrefix)
    (decoded : ∀ p, Instruction.decode? op p (m.code.drop 1) = some (i, length)) :
    m.Executes i (1 + length) where
  running := running
  fetched := by
    subst first
    have none : m.code.Holds [] := fun _ absurd => nomatch absurd
    have all : m.code.drop 0 = m.code := funext fun k => congrArg m.code (Nat.zero_add k)
    have found := Fetched.ofCode_of_lt none (fun _ absurd => nomatch absurd) plain (by decide)
      (m.pending.getD {})
    rw [List.length_nil, all, Code.decode?, opcode, Option.bind_some, decoded] at found
    exact found.trans (congrArg (Fetched.instruction i) (Nat.zero_add _))

/-- A program that the stack keeps off is still there when some of the stack has been used. -/
theorem holds_of_kept {bytes : List Byte} {n d : Nat} (holds : m.code.Holds bytes)
    (cs : m'.cpu.registers.cs = m.cpu.registers.cs)
    (ip : m'.cpu.registers.ip = m.cpu.registers.ip + BitVec.ofNat 16 d)
    (kept : ∀ a, ¬m.cpu.UnderTop n a → m'.cpu.memory.get a = m.cpu.memory.get a)
    (apart : ∀ j < bytes.length,
      ¬m.cpu.UnderTop n (m.cpu.address .cs (m.cpu.registers.ip + BitVec.ofNat 16 j))) :
    m'.code.Holds (bytes.drop d) := by
  intro k hk
  have inside : d + k < bytes.length := by
    rw [List.length_drop] at hk
    omega
  have place : m'.cpu.address .cs (m'.cpu.registers.ip + BitVec.ofNat 16 k) =
      m.cpu.address .cs (m.cpu.registers.ip + BitVec.ofNat 16 (d + k)) := by
    rw [ip, BitVec.add_assoc, ← BitVec.ofNat_add]
    exact congrArg (Address.translate · _) cs
  have same : m'.code k = m.code (d + k) := by
    unfold code Cpu.peekByte Cpu.readByte
    rw [place]
    exact kept _ (apart _ inside)
  rw [same, holds _ inside, List.getElem_drop]

/-- An instruction without an interrupt leaves the processor as it is executed where it stands. -/
theorem Executes.cpu_step {i : Instruction} {length : Nat} (executes : m.Executes i length)
    (quiet : (m.cpu.execute i).2 = .next) :
    ∃ opIp, m.step.2.cpu = ((m.cpu.relocate (m.behind length) opIp).execute i).1 := by
  refine ⟨m.instructionStart, ?_⟩
  have silent (vector : Byte) : (m.markStart.cpu.execute i).2 ≠ .interrupt vector := by
    rw [signal_markStart, quiet]
    exact Signal.noConfusion
  rw [step_of_instruction executes.running executes.fetched, cpu_perform silent, cpu_executed,
    cpu_markStart]
  rfl

/-- An interrupt that is served by a routine of the program enters it from behind the instruction
that asks for it. -/
theorem Executes.cpu_step_of_interrupt {i : Instruction} {length : Nat} {vector : Byte}
    (executes : m.Executes i length)
    (asks : ∀ c : Cpu, c.flags = m.cpu.flags → c.execute i = (c, .interrupt vector))
    (enters : m.EntersRoutine vector) :
    ∃ opIp, m.step.2.cpu =
      (m.cpu.relocate (m.behind length) opIp).enter .interrupt (m.cpu.readVector vector).1
        (m.cpu.readVector vector).2 := by
  have place : m.markStart.cpu.relocate (m.markStart.behind length) m.markStart.cpu.registers.opIp =
      m.cpu.relocate (m.behind length) m.instructionStart := by
    simp only [behind, cpu_markStart]
    rfl
  have asked := asks (m.cpu.relocate (m.behind length) m.instructionStart) rfl
  have executed : (m.markStart.executed i length).cpu =
      m.cpu.relocate (m.behind length) m.instructionStart := by
    rw [cpu_executed, ← behind, place, asked]
  have signal : m.markStart.signal i length = .interrupt vector := by
    rw [signal_eq, signal_markStart]
    exact congrArg Prod.snd (asks m.cpu rfl)
  have free : (m.markStart.executed i length).bus.target? vector = none :=
    (congrArg (·.target? vector) m.bus_markStart).trans enters.free
  have entry : (m.markStart.executed i length).cpu.readVector vector ≠ (0, 0) := by
    rw [executed, Cpu.readVector_relocate]
    exact enters.entry
  have entered := raise_of_entry free entry
  rw [executed] at entered
  rw [step_of_instruction executes.running executes.fetched, perform_eq, signal, follow, entered]
  exact ⟨m.instructionStart, Cpu.enterInterrupt_eq_enter _ _ _⟩

/-- Whatever opens a bracket puts the processor behind itself and then enters a routine. -/
theorem Opens.cpu_eq (opens : Opens m frame next m') :
    ∃ opIp cs ip, m'.cpu = (m.cpu.relocate next opIp).enter frame cs ip ∧
      (frame = .near → cs = m.cpu.registers.cs) := by
  cases opens with
  | call executes | callTo executes =>
      obtain ⟨opIp, cpu⟩ := executes.cpu_step rfl
      exact ⟨opIp, _, _, cpu.trans (Cpu.call_eq_enter _ _), fun _ => rfl⟩
  | callFar executes | callToPointer executes =>
      obtain ⟨opIp, cpu⟩ := executes.cpu_step rfl
      exact ⟨opIp, _, _, cpu.trans (Cpu.callFar_eq_enter _ _ _), Frame.noConfusion⟩
  | interrupt executes enters =>
      obtain ⟨opIp, cpu⟩ := executes.cpu_step_of_interrupt (fun _ _ => rfl) enters
      exact ⟨opIp, _, _, cpu, Frame.noConfusion⟩
  | into executes overflow enters =>
      have asks (c : Cpu) (same : c.flags = m.cpu.flags) :
          c.execute .into = (c, .interrupt overflowVector) := by
        show (c, if c.flags.overflow then _ else _) = _
        rw [same, if_pos overflow]
      obtain ⟨opIp, cpu⟩ := executes.cpu_step_of_interrupt asks enters
      exact ⟨opIp, _, _, cpu, Frame.noConfusion⟩
  | raise enters =>
      rw [raise_of_entry enters.free enters.entry]
      exact ⟨m.cpu.registers.opIp, _, _, Cpu.enterInterrupt_eq_enter m.cpu _ _, Frame.noConfusion⟩

theorem Closes.cpu_eq (closes : Closes m frame m') :
    ∃ ip opIp, m'.cpu = (m.cpu.relocate ip opIp).leave frame := by
  obtain ⟨executes⟩ := closes
  obtain ⟨opIp, cpu⟩ := executes.cpu_step (by cases frame <;> rfl)
  exact ⟨_, opIp, cpu.trans (Cpu.execute_closing _ frame)⟩

/-- A bracket around a sequence that keeps all but its own stack does so itself, and leads to the
offset from which it was opened. -/
theorem restored_of_bracket {n : Nat} (opens : Opens m frame next m₁)
    (inside : Cpu.Restored n m₁.cpu m₂.cpu) (closes : Closes m₂ frame m')
    (room : frame.size + n ≤ 0x10000) :
    Cpu.Restored (frame.size + n) m.cpu m'.cpu ∧ m'.cpu.registers.ip = next := by
  obtain ⟨opIp, cs, ip, entered, stays⟩ := opens.cpu_eq
  obtain ⟨a, b, left⟩ := closes.cpu_eq
  rw [entered] at inside
  rw [left]
  obtain ⟨restored, back⟩ := Cpu.restored_leave (inside.relocate a b) room stays
  exact ⟨restored.of_relocate, back⟩

/-- A well-bracketed sequence keeps all but the stack that it uses. -/
theorem Nested.restored {depth : Nat} (nested : Nested m depth m') (room : depth ≤ 0x10000) :
    Cpu.Restored depth m.cpu m'.cpu := by
  induction nested with
  | nil m => exact .refl m.cpu
  | prefixes _ running fetched ih =>
      rw [step_of_prefixes running fetched, keepPrefixes, cpu_markStart]
      exact (ih room).relocate _ _
  | bracket _ opens _ closes before inside =>
      have earlier := before (by omega)
      have bracket := (restored_of_bracket opens (inside (by omega)) closes (by omega)).1
      exact (earlier.mono (by omega)).trans (bracket.mono (by omega))

/-! ## A call that is interrupted -/

/-- A program that calls a routine, which asks for interrupt 0. The entry of the vector table lies
behind the program, where addresses have wrapped to zero. -/
def interruptedCall : List Byte :=
  [0xE8, 0x01, 0x00, 0x90, 0xCD, 0x00, 0xC3, 0xCF] ++ List.replicate 8 0 ++
    [0x07, 0x00, 0xFF, 0xFF]

/-- The stack lies at the other end of the first segment. -/
theorem not_underTop_interruptedCall {c : Cpu} (start : c.registers = .reset) :
    ∀ j < interruptedCall.length,
      ¬c.UnderTop 8 (c.address .cs (c.registers.ip + BitVec.ofNat 16 j)) := by
  rintro j (inside : j < 20) ⟨k, pos, le, same⟩
  have linear := congrArg BitVec.toNat same
  have cs : (c.registers.segment .cs).toNat = 0xFFFF := by
    rw [start]
    rfl
  have ss : (c.registers.segment .ss).toNat = 0 := by
    rw [start]
    rfl
  have ip : c.registers.ip = 0 := by rw [start]; rfl
  have sp : c.registers.sp = 0 := by rw [start]; rfl
  simp only [Cpu.address, Address.toNat_translate, cs, ss, ip, sp, memorySize] at linear
  bv_omega

/-- The first entry of the vector table, as it is seen from offset 4 of the last segment. -/
theorem readVector_zero_of_code (cs : m.cpu.registers.cs = 0xFFFF)
    (ip : m.cpu.registers.ip = 4) :
    m.cpu.readVector 0 = (m.code.word 14, m.code.word 12) := by
  have table {j : Nat} (inside : j < 4) :
      m.cpu.memory.get (BitVec.ofNat 20 j) = m.code (12 + j) := by
    have place : BitVec.ofNat 20 j =
        m.cpu.address .cs (m.cpu.registers.ip + BitVec.ofNat 16 (12 + j)) := by
      show _ = Address.translate m.cpu.registers.cs _
      rw [cs, ip]
      revert j
      decide
    rw [code, Cpu.peekByte, Cpu.readByte, ← place]
  have offset : (m.cpu.readVector 0).2 = m.code.word 12 :=
    congr (congrArg Word.ofBytes (table (j := 0) (by decide))) (table (j := 1) (by decide))
  have segment : (m.cpu.readVector 0).1 = m.code.word 14 :=
    congr (congrArg Word.ofBytes (table (j := 2) (by decide))) (table (j := 3) (by decide))
  exact Prod.ext segment offset

/-- The call goes on at offset 4. -/
theorem call_of_interruptedCall (program : m.code.Holds interruptedCall)
    (running : m.cpu.halted = false) (start : m.cpu.registers = .reset) :
    Opens m .near 3 m.step.2 ∧ m.step.2.bus = m.bus ∧
      ∃ opIp, m.step.2.cpu = (m.cpu.relocate 3 opIp).enter .near 0xFFFF 4 := by
  have executes : m.Executes (.call 1) (1 + 2) := by
    refine executes_of_opcode .callNear running (program 0 (by decide)) (by decide) (by decide)
      fun p => ?_
    have distance : (m.code.drop 1).word 0 = 1 := by
      rw [Code.word, Code.drop_apply, Code.drop_apply, program 1 (by decide),
        program 2 (by decide)]
      decide
    rw [← distance]
    rfl
  have next : m.behind (1 + 2) = 3 := by
    rw [behind, start]
    rfl
  have cs : m.cpu.registers.cs = 0xFFFF := by
    rw [start]
    rfl
  have bus : m.step.2.bus = m.bus := by
    rw [step_of_instruction executes.running executes.fetched]
    exact m.bus_markStart
  obtain ⟨opIp, cpu⟩ := executes.cpu_step rfl
  rw [next] at cpu
  have entered := cpu.trans (Cpu.call_eq_enter (m.cpu.relocate 3 opIp) 4)
  rw [Cpu.registers_relocate, Registers.cs_relocate, cs] at entered
  exact ⟨next ▸ .call executes, bus, opIp, entered⟩

/-- The routine is interrupted, and both returns are found where they have been loaded, since the
eight bytes of the stack that are used lie elsewhere. -/
theorem routine_of_interruptedCall {called : Machine World} {opIp : Word}
    (program : m.code.Holds interruptedCall) (running : m.cpu.halted = false)
    (start : m.cpu.registers = .reset) (empty : called.bus.registrations = [])
    (entered : called.cpu = (m.cpu.relocate 3 opIp).enter .near 0xFFFF 4) :
    let interrupted := called.step.2
    let resumed := interrupted.step.2
    Opens called .interrupt 6 interrupted ∧ Closes interrupted .interrupt resumed ∧
      Closes resumed .near resumed.step.2 := by
  intro interrupted resumed
  have apart := not_underTop_interruptedCall start
  have kept : ∀ a, ¬m.cpu.UnderTop 8 a → called.cpu.memory.get a = m.cpu.memory.get a := by
    intro a outside
    rw [entered]
    exact Cpu.get_enter .near fun under => outside (under.mono (by decide))
  have registers : called.cpu.registers = { m.cpu.registers with sp := 0xFFFE, ip := 4, opIp } := by
    rw [entered, Cpu.registers_enter, Cpu.registers_relocate, start]
    rfl
  have cs : called.cpu.registers.cs = 0xFFFF := by
    rw [registers, start]
    rfl
  have ip : called.cpu.registers.ip = 4 := by rw [registers]
  have routine := holds_of_kept (d := 4) program (by rw [registers])
    (by rw [ip, start]; rfl) kept apart
  have asks : called.Executes (.interrupt 0) (1 + 1) := by
    refine executes_of_opcode .int ?_ (routine 0 (by decide)) (by decide) (by decide) fun p => ?_
    · rw [entered, Cpu.halted_enter]
      exact running
    · have vector : called.code.drop 1 0 = 0 := by
        rw [Code.drop_apply]
        exact routine 1 (by decide)
      rw [← vector]
      rfl
  have entry : called.cpu.readVector 0 = (0xFFFF, 7) := by
    rw [readVector_zero_of_code cs ip, Code.word, Code.word, routine 12 (by decide),
      routine 13 (by decide), routine 14 (by decide), routine 15 (by decide)]
    decide
  have enters : called.EntersRoutine 0 :=
    ⟨by rw [Bus.target?, empty]; rfl, by rw [entry]; decide⟩
  have next : called.behind (1 + 1) = 6 := by
    rw [behind, ip]
    rfl
  have opens : Opens called .interrupt 6 interrupted := next ▸ .interrupt asks enters
  obtain ⟨opIp, served⟩ : ∃ opIp,
      interrupted.cpu = (called.cpu.relocate 6 opIp).enter .interrupt 0xFFFF 7 := by
    obtain ⟨opIp, entered⟩ := asks.cpu_step_of_interrupt (fun _ _ => rfl) enters
    rw [entry, next] at entered
    exact ⟨opIp, entered⟩
  have deeper {a : Address} (outside : ¬m.cpu.UnderTop 8 a) : ¬called.cpu.UnderTop 6 a := by
    rw [entered]
    exact fun under => outside under.of_enter
  -- The two returns.
  have closes : Closes interrupted .interrupt resumed := by
    have handler : interrupted.code.Holds (interruptedCall.drop 7) :=
      holds_of_kept program (by rw [served, start]; rfl) (by rw [served, start]; rfl)
        (fun a outside => by
          rw [served, Cpu.get_enter (c := called.cpu.relocate 6 opIp) .interrupt (deeper outside)]
          exact kept a outside) apart
    refine .intro (executes_of_opcode .iret ?_ (handler 0 (by decide)) (by decide) (by decide)
      fun p => rfl)
    rw [served, Cpu.halted_enter]
    exact asks.running
  obtain ⟨restored, back⟩ := restored_of_bracket opens (.refl _) closes (by decide)
  have returns : Closes resumed .near resumed.step.2 := by
    have rest : resumed.code.Holds (interruptedCall.drop 6) :=
      holds_of_kept program (by rw [restored.registers, Registers.cs_relocate, registers])
        (by rw [back, start]; rfl)
        (fun a outside => (restored.memory a (deeper outside)).trans (kept a outside)) apart
    exact .intro (executes_of_opcode (.ret false false) (restored.halted.trans asks.running)
      (rest 0 (by decide)) (by decide) (by decide) fun p => rfl)
  exact ⟨opens, closes, returns⟩

/-! ## Any nesting -/

/-- Calls and interrupts that are nested in any way, each with the return that belongs to it, leave
no trace but on the stack, if they never use more of it than a whole segment. After the last return
execution goes on in the segment and at the offset behind the call that it belongs to, which is the
first one of all if nothing stands before it. All other registers and all flags are as before the
sequence, and a byte of memory is only changed if it lies below where the top of the stack was then,
as deep as frames have been pushed. It does not matter where the stack lies, since the instructions
are those that have been executed, whatever has been written over them. -/
theorem restored_of_nesting {before inside : Nat} (earlier : Nested m before m₁)
    (opens : Opens m₁ frame next m₂) (nested : Nested m₂ inside m₃) (closes : Closes m₃ frame m')
    (room : max before (frame.size + inside) ≤ 0x10000) :
    m'.cpu.registers =
        { m.cpu.registers with ip := next, opIp := m'.cpu.registers.opIp } ∧
      m'.cpu.flags = m.cpu.flags ∧ m'.cpu.halted = m.cpu.halted ∧
      ∀ a, m'.cpu.memory.get a ≠ m.cpu.memory.get a →
        ∃ k, 0 < k ∧ k ≤ max before (frame.size + inside) ∧
          a = m.cpu.address .ss (m.cpu.registers.sp - BitVec.ofNat 16 k) := by
  have restored := (Nested.bracket earlier opens nested closes).restored room
  have back := (restored_of_bracket opens (nested.restored (by omega)) closes (by omega)).2
  refine ⟨?_, restored.flags, restored.halted, fun a changed => ?_⟩
  · rw [← back]
    exact restored.registers
  · exact Classical.byContradiction fun outside => changed (restored.memory a outside)

/-- When the call has returned, only IP is not as before. -/
theorem restored_of_nesting_of_interruptedCall :
    let m := booted interruptedCall
    let called := m.step.2
    let resumed := called.step.2.step.2
    let returned := resumed.step.2
    Opens m .near 3 called ∧ Nested called 6 resumed ∧ Closes resumed .near returned ∧
      max 0 (Frame.near.size + 6) ≤ 0x10000 ∧
      returned.cpu.registers =
        { m.cpu.registers with ip := 3, opIp := returned.cpu.registers.opIp } ∧
      returned.cpu.flags = m.cpu.flags := by
  intro m called resumed returned
  have running : m.cpu.halted = false := rfl
  have program : m.code.Holds interruptedCall := code_booted (by decide)
  obtain ⟨call, bus, opIp, entered⟩ := call_of_interruptedCall program running rfl
  have opens : Opens m .near 3 called := call
  have empty : called.bus.registrations = [] := congrArg Bus.registrations bus
  have routine := routine_of_interruptedCall program running rfl empty entered
  have nested : Nested called 6 resumed := .bracket (.nil called) routine.1 (.nil _) routine.2.1
  have returns : Closes resumed .near returned := routine.2.2
  have back := restored_of_nesting (.nil m) opens nested returns (by decide)
  clear_value returned resumed called m
  exact ⟨opens, nested, returns, by decide, back.1, back.2.1⟩

end Machine

end I8086
