import I8086.Proofs.Access
import I8086.Proofs.Encoding
import I8086.Proofs.Step

/-!
# Reading prefixes and the instruction behind them

The bytes at `CS:IP` are prefixes and then, behind the last of them, an instruction.
`Machine.executeUnder` executes that instruction alone, with the effect of the prefixes given. A
step that finds a run of prefixes short enough for it skips the run and does the same; a step that
finds a longer run only takes the first `maxPrefixRun` of it.
-/

namespace I8086

namespace Code

/-- The instruction whose opcode is the first byte, and its length, with the effect of prefixes
given. -/
def decode? (code : Code) (p : Prefixes) : Option (Instruction × Nat) :=
  ((Opcode.ofByte? (code 0)).bind fun op => Instruction.decode? op p (code.drop 1)).map
    fun (i, length) => (i, 1 + length)

/-- A decoded instruction has the length that the table says. -/
theorem snd_of_decode? {code : Code} {p : Prefixes} {i : Instruction} {length : Nat}
    (decoded : code.decode? p = some (i, length)) : length = Encoding.length code := by
  simp only [decode?, Option.map_eq_some_iff, Option.bind_eq_some_iff] at decoded
  obtain ⟨⟨j, rest⟩, ⟨op, opcode, operands⟩, pair⟩ := decoded
  injection pair with _ total
  rw [← total, Encoding.length_eq opcode, Instruction.snd_of_decode? operands]

/-- The distance of a decoded jump is found where the table says. -/
theorem distance?_of_decode? {code : Code} {p : Prefixes} {i : Instruction} {length : Nat}
    (decoded : code.decode? p = some (i, length)) : i.distance? = Encoding.distance? code := by
  simp only [decode?, Option.map_eq_some_iff, Option.bind_eq_some_iff] at decoded
  obtain ⟨⟨j, rest⟩, ⟨op, opcode, operands⟩, pair⟩ := decoded
  injection pair with same _
  rw [← same, Encoding.distance?_eq opcode, Instruction.distance?_of_decode? operands]
  rfl

/-- Nothing behind an instruction has a part in it. -/
theorem decode?_congr {code code' : Code} (p : Prefixes)
    (agree : Agree (Encoding.length code) code code') : code.decode? p = code'.decode? p := by
  have first : code 0 = code' 0 := agree 0 (by rw [Encoding.length]; omega)
  unfold decode?
  rw [← first]
  cases opcode : Opcode.ofByte? (code 0) with
  | none => rfl
  | some op =>
      rw [Encoding.length_eq opcode] at agree
      simp only [Option.bind_some, Instruction.decode?_congr p agree.drop]

end Code

/-- A run of prefixes that leaves room is skipped, and the instruction behind it decoded. -/
theorem Fetched.ofCode_of_lt {code : Code} {bytes : List Byte} (holds : code.Holds bytes)
    (prefixes : ∀ b ∈ bytes, b.IsPrefix) (stop : ¬(code bytes.length).IsPrefix)
    (short : bytes.length < maxPrefixRun) (p : Prefixes) :
    ofCode code p =
      match (code.drop bytes.length).decode? (p.extend bytes) with
      | some (i, length) => .instruction i (bytes.length + length)
      | none => .undefined (code bytes.length) := by
  unfold ofCode Code.decode?
  rw [Prefixes.scan_of_lt holds prefixes stop short]
  simp only [if_true, Code.drop_apply, Code.drop_drop, Nat.add_zero]
  cases (Opcode.ofByte? (code bytes.length)).bind fun op =>
      Instruction.decode? op (p.extend bytes) (code.drop (bytes.length + 1)) with
  | none => rfl
  | some decoded => simp only [Option.map_some, Nat.add_assoc]

/-- Of a longer run the first prefixes are taken. -/
theorem Fetched.ofCode_of_le {code : Code} {bytes : List Byte} (holds : code.Holds bytes)
    (prefixes : ∀ b ∈ bytes, b.IsPrefix) (long : maxPrefixRun ≤ bytes.length) (p : Prefixes) :
    ofCode code p = .prefixes (p.extend (bytes.take maxPrefixRun)) maxPrefixRun := by
  unfold ofCode
  rw [Prefixes.scan_of_le holds prefixes long]
  rfl

namespace Machine

variable {World : Type}

/-- The machine with IP moved past so many bytes. -/
def skip (m : Machine World) (n : Nat) : Machine World :=
  { m with cpu := m.cpu.advance (BitVec.ofNat 16 n) }

/-- Executes the instruction whose opcode is at `CS:IP`, under prefixes that are not there. -/
def executeUnder (m : Machine World) (p : Prefixes) : Except Fault Step × Machine World :=
  match m.code.decode? p with
  | some (i, length) => m.perform i length
  | none => m.reject (m.code 0)

theorem advance_advance (c : Cpu) (j k : Nat) :
    (c.advance (BitVec.ofNat 16 j)).advance (BitVec.ofNat 16 k) =
      c.advance (BitVec.ofNat 16 (j + k)) := by
  simp only [Cpu.advance, BitVec.add_assoc, BitVec.ofNat_add]

/-- Past so many bytes the rest of the stream is found. -/
@[simp] theorem code_skip (m : Machine World) (n : Nat) : (m.skip n).code = m.code.drop n := by
  funext k
  have offset : m.cpu.registers.ip + BitVec.ofNat 16 n + BitVec.ofNat 16 k =
      m.cpu.registers.ip + BitVec.ofNat 16 (n + k) := by
    rw [BitVec.add_assoc, BitVec.ofNat_add]
  exact congrArg (m.cpu.readByte .cs) offset

/-- Bytes stored at `CS:IP` begin the stream, unless they run over the end of the segment. -/
theorem code_holds_store {m : Machine World} {memory : Memory} {data : List Byte}
    (stored : m.cpu.memory = memory.store (m.cpu.address .cs m.cpu.registers.ip) data)
    (room : m.cpu.registers.ip.toNat + data.length ≤ 0x10000) : m.code.Holds data := by
  intro k hk
  have distance : (m.cpu.address .cs (m.cpu.registers.ip + BitVec.ofNat 16 k) -
      m.cpu.address .cs m.cpu.registers.ip).toNat = k := by
    have base := (m.cpu.registers.segment .cs).isLt
    simp only [Cpu.address, Address.translate]
    bv_omega
  unfold code Cpu.peekByte Cpu.readByte
  rw [stored, Memory.get_store _ _ _ (by simp only [memorySize]; omega)]
  simp only [distance, hk, dif_pos]

/-- A machine at power-on with a program where execution starts. -/
def booted (program : List Byte) : Machine Unit :=
  { cpu := { memory := Memory.zero.store 0xFFFF0 program }, world := () }

theorem code_booted {program : List Byte} (room : program.length ≤ 0x10000) :
    (booted program).code.Holds program :=
  code_holds_store (m := booted program) rfl ((Nat.zero_add _).symm ▸ room)

theorem perform_skip (m : Machine World) (n : Nat) (i : Instruction) (length : Nat) :
    (m.skip n).perform i length = m.perform i (n + length) := by
  have executed : (m.skip n).executed i length = m.executed i (n + length) := by
    simp only [Machine.executed, skip, advance_advance]
  have signal : (m.skip n).signal i length = m.signal i (n + length) := by
    simp only [Machine.signal, skip, advance_advance]
  rw [perform_eq, perform_eq, executed, signal]

/-- An instruction that is rejected goes back to its start, wherever it is found undefined. -/
theorem reject_skip (m : Machine World) (n : Nat) (opcode : Byte) :
    (m.skip n).reject opcode = m.reject opcode := rfl

/-- The step that reaches the end of its prefixes executes the instruction behind them, under all
prefixes read so far. -/
theorem step_of_run {m : Machine World} {bytes : List Byte} (running : m.cpu.halted = false)
    (holds : m.code.Holds bytes) (prefixes : ∀ b ∈ bytes, b.IsPrefix)
    (stop : ¬(m.code bytes.length).IsPrefix) (short : bytes.length < maxPrefixRun) :
    m.step =
      (m.markStart.skip bytes.length).executeUnder ((m.pending.getD {}).extend bytes) := by
  have fetched := Fetched.ofCode_of_lt holds prefixes stop short (m.pending.getD {})
  unfold executeUnder
  rw [code_skip, code_markStart]
  cases decoded : (m.code.drop bytes.length).decode? ((m.pending.getD {}).extend bytes) with
  | none =>
      rw [decoded] at fetched
      exact (step_of_undefined running fetched).trans (reject_skip _ _ _).symm
  | some found =>
      obtain ⟨i, length⟩ := found
      rw [decoded] at fetched
      exact (step_of_instruction running fetched).trans (perform_skip _ _ _ _).symm

/-- A step that does not reach the end of its prefixes keeps them. -/
theorem step_of_long_run {m : Machine World} {bytes : List Byte} (running : m.cpu.halted = false)
    (holds : m.code.Holds bytes) (prefixes : ∀ b ∈ bytes, b.IsPrefix)
    (long : maxPrefixRun ≤ bytes.length) :
    m.step =
      m.markStart.keepPrefixes ((m.pending.getD {}).extend (bytes.take maxPrefixRun))
        maxPrefixRun :=
  step_of_prefixes running (Fetched.ofCode_of_le holds prefixes long _)

end Machine

end I8086
