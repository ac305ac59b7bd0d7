import I8086.Proofs.Fetch
import I8086.Proofs.Flow

/-!
# One instruction at two places

The same instruction may stand at two places of the code segment. Executed at either, it gives the
same result, and the machines differ afterwards at most in IP, in the return address on top of the
stack, and in what only the host can see, the remembered start and the count. Both IP and the
return address differ by the distance of the two places. If the instruction is not defined, the
machines are left at its two starts; and if a host handler serves it, the same one is called for
both, with machines that differ in nothing else.
-/

namespace I8086.Machine

variable {World : Type}

/-- The machine at another place, with another count. -/
def moved (m : Machine World) (ip opIp : Word) (count : Nat) : Machine World :=
  { m with cpu := m.cpu.relocate ip opIp, count := count }

/-- The second machine is the first, apart from the remembered start and the count, and with IP
and the word on top of the stack displaced by `δ` or not at all. -/
def Displaced (δ : Word) (m m' : Machine World) : Prop :=
  ∃ cpu ip opIp count,
    (cpu = m.cpu ∨
      cpu = m.cpu.writeWord .ss m.cpu.registers.sp
        (m.cpu.readWord .ss m.cpu.registers.sp + δ)) ∧
    (ip = m.cpu.registers.ip ∨ ip = m.cpu.registers.ip + δ) ∧
    m' = moved { m with cpu } ip opIp count

/-- What an instruction has done at two places that are `δ` apart. -/
inductive SameEffect (δ : Word) :
    Except Fault Step × Machine World → Except Fault Step × Machine World → Prop where
  | performed {result : Except Fault Step} {m m' : Machine World} :
      Displaced δ m m' → SameEffect δ (result, m) (result, m')
  /-- A handler of the host is called from both places. -/
  | served {m : Machine World} {vector : Byte} {handler : Handler World} (opIp : Word)
      (count : Nat) : m.bus.target? vector = some handler →
      SameEffect δ (concluded (m.serve handler vector))
        (concluded ((m.moved (m.cpu.registers.ip + δ) opIp count).serve handler vector))
  /-- Both machines are back at the starts that their faults report. -/
  | rejected {m : Machine World} (opcode : Byte) (ip : Word) (count : Nat) :
      SameEffect δ
        (.error (.illegalInstruction opcode m.cpu.registers.cs m.cpu.registers.ip), m)
        (.error (.illegalInstruction opcode m.cpu.registers.cs ip), m.moved ip ip count)

/-- One more count changes nothing about the distance. -/
theorem Displaced.concluded {δ : Word} {m m' : Machine World} (h : Displaced δ m m') :
    Displaced δ { m with count := m.count + 1 } { m' with count := m'.count + 1 } := by
  obtain ⟨cpu, ip, opIp, count, onStack, target, rfl⟩ := h
  exact ⟨cpu, ip, opIp, count + 1, onStack, target, rfl⟩

/-- An interrupt at two places. -/
theorem raise_moved (m : Machine World) (δ opIp : Word) (count : Nat) (vector : Byte) :
    SameEffect δ (concluded (m.raise vector))
      (concluded ((m.moved (m.cpu.registers.ip + δ) opIp count).raise vector)) := by
  cases claimed : m.bus.target? vector with
  | some handler =>
      rw [raise_of_target claimed, raise_of_target (by exact claimed)]
      exact .served opIp count claimed
  | none =>
      have free : (m.moved (m.cpu.registers.ip + δ) opIp count).bus.target? vector = none := claimed
      have entry : (m.moved (m.cpu.registers.ip + δ) opIp count).cpu.readVector vector =
          m.cpu.readVector vector := rfl
      by_cases empty : m.cpu.readVector vector = (0, 0)
      · rw [raise_of_empty claimed empty, raise_of_empty free (entry.trans empty)]
        exact .performed ⟨m.cpu, _, opIp, count + 1, .inl rfl, .inr rfl, rfl⟩
      · rw [raise_of_entry claimed empty, raise_of_entry free (entry ▸ empty), entry]
        simp only [moved, Cpu.enterInterrupt_relocate]
        refine .performed ⟨Cpu.writeWord _ .ss _ (m.cpu.registers.ip + δ), _, opIp, count + 1,
          .inr ?_, .inl rfl, rfl⟩
        simp only [Cpu.readWord_enterInterrupt]

/-- Behind an instruction the distance of the two places is the same as before it. -/
theorem cpu_advance_moved (m : Machine World) (δ opIp : Word) (count : Nat) (length : Nat) :
    (m.moved (m.cpu.registers.ip + δ) opIp count).cpu.advance (BitVec.ofNat 16 length) =
      (m.cpu.advance (BitVec.ofNat 16 length)).relocate
        ((m.cpu.advance (BitVec.ofNat 16 length)).registers.ip + δ) opIp := by
  have behind : m.cpu.registers.ip + δ + BitVec.ofNat 16 length =
      m.cpu.registers.ip + BitVec.ofNat 16 length + δ := by
    rw [BitVec.add_assoc, BitVec.add_assoc, BitVec.add_comm δ]
  exact congrArg (fun ip => m.cpu.relocate ip opIp) behind

/-- The places that control goes to from two places that are `δ` apart. -/
theorem flow_ip_displaced {flow : Flow} {next target : Word} (own : target = flow.ip next target)
    (δ : Word) :
    flow.ip (next + δ) target = target ∨ flow.ip (next + δ) target = target + δ := by
  cases flow with
  | onward => exact .inr (congrArg (· + δ) own.symm)
  | relative d =>
      refine .inr ?_
      have goes : target = next + d := own
      rw [goes, Flow.ip, BitVec.add_assoc, BitVec.add_assoc, BitVec.add_comm δ]
  | absolute => exact .inl rfl

theorem signal_moved (m : Machine World) (δ opIp : Word) (count : Nat) (i : Instruction)
    (length : Nat) :
    (m.moved (m.cpu.registers.ip + δ) opIp count).signal i length = m.signal i length := by
  unfold signal
  rw [cpu_advance_moved]
  cases isCall : i.isCall with
  | true => rw [Cpu.execute_relocate_of_isCall _ _ _ isCall, Cpu.signal_of_isCall _ isCall]
  | false => rw [Cpu.execute_relocate _ _ _ isCall]

/-- The machines after the execution itself, before any interrupt is delivered. -/
theorem executed_moved (m : Machine World) (δ opIp : Word) (count : Nat) (i : Instruction)
    (length : Nat) :
    Displaced δ (m.executed i length)
      ((m.moved (m.cpu.registers.ip + δ) opIp count).executed i length) := by
  unfold executed
  rw [cpu_advance_moved]
  generalize m.cpu.advance (BitVec.ofNat 16 length) = c
  cases isCall : i.isCall with
  | true =>
      rw [Cpu.execute_relocate_of_isCall _ _ _ isCall]
      refine ⟨Cpu.writeWord _ .ss _ (c.registers.ip + δ), _, opIp, count, .inr ?_,
        flow_ip_displaced (c.ip_execute_of_isCall isCall) δ, rfl⟩
      simp only [Cpu.readWord_execute_of_isCall _ isCall]
  | false =>
      rw [Cpu.execute_relocate _ _ _ isCall]
      exact ⟨_, _, opIp, count, .inl rfl, flow_ip_displaced (c.ip_execute isCall) δ, rfl⟩

/-- Where an interrupt is asked for, the machines differ in IP only, besides what the host sees. -/
theorem executed_moved_of_interrupt {m : Machine World} {i : Instruction} {length : Nat}
    {vector : Byte} (asks : m.signal i length = .interrupt vector) (δ opIp : Word) (count : Nat) :
    (m.moved (m.cpu.registers.ip + δ) opIp count).executed i length =
      (m.executed i length).moved ((m.executed i length).cpu.registers.ip + δ) opIp count := by
  unfold signal at asks
  unfold executed
  rw [cpu_advance_moved]
  generalize m.cpu.advance (BitVec.ofNat 16 length) = c at asks
  cases isCall : i.isCall with
  | true =>
      rw [Cpu.signal_of_isCall _ isCall] at asks
      cases asks
  | false =>
      have behind := c.ip_execute isCall
      rw [Cpu.flow_of_interrupt _ asks] at behind
      rw [Cpu.execute_relocate _ _ _ isCall, Cpu.flow_of_interrupt _ asks, behind]
      rfl

/-- A defined instruction at two places. -/
theorem perform_moved (m : Machine World) (δ opIp : Word) (count : Nat) (i : Instruction)
    (length : Nat) :
    SameEffect δ (m.perform i length)
      ((m.moved (m.cpu.registers.ip + δ) opIp count).perform i length) := by
  rw [perform_eq, perform_eq, signal_moved]
  cases asks : m.signal i length with
  | next => exact .performed (executed_moved m δ opIp count i length).concluded
  | halt => exact .performed (executed_moved m δ opIp count i length).concluded
  | interrupt vector =>
      rw [executed_moved_of_interrupt asks]
      exact raise_moved _ δ opIp count vector

/-- An instruction that is not defined at two places. -/
theorem reject_moved (m : Machine World) (δ ip opIp : Word) (count : Nat) (opcode : Byte) :
    SameEffect δ (m.reject opcode) ((m.moved ip opIp count).reject opcode) :=
  .rejected (m := (m.reject opcode).2) opcode opIp count

/-- What stands at `CS:IP` under given prefixes, at two places with the same bytes. -/
theorem executeUnder_moved {m : Machine World} {δ opIp : Word} {count : Nat} (p : Prefixes)
    (agree : Code.Agree (Encoding.length m.code) m.code
      (m.moved (m.cpu.registers.ip + δ) opIp count).code) :
    SameEffect δ (m.executeUnder p)
      ((m.moved (m.cpu.registers.ip + δ) opIp count).executeUnder p) := by
  have first := agree 0 (by rw [Encoding.length]; omega)
  unfold executeUnder
  rw [← Code.decode?_congr p agree, ← first]
  cases m.code.decode? p with
  | none => exact reject_moved m δ _ opIp count _
  | some found => exact perform_moved m δ opIp count found.1 found.2

end I8086.Machine
