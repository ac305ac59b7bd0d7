import I8086.Proofs.PrefixRun

/-!
# Pending prefixes are those in front of IP

While prefixes are pending, they are the ones that stand between the remembered start of the
instruction and IP, in portions of `maxPrefixRun`. `Machine.PendingRun` says so, and every step
keeps it. It has to be established once, by starting with none pending; a request that moves IP or
puts other bytes into memory may break it, but no step does. So an instruction is only ever decoded
under its own prefixes.
-/

namespace I8086

namespace Code

theorem Holds.append {code : Code} {bytes rest : List Byte} (front : code.Holds bytes)
    (back : (code.drop bytes.length).Holds rest) : code.Holds (bytes ++ rest) := by
  intro i hi
  by_cases inside : i < bytes.length
  · rw [List.getElem_append_left inside, front i inside]
  · obtain ⟨k, rfl⟩ := Nat.exists_eq_add_of_le (Nat.le_of_not_lt inside)
    have byte := back k (by rw [List.length_append] at hi; omega)
    rw [drop_apply] at byte
    rw [byte, List.getElem_append_right (Nat.le_add_right _ k)]
    simp only [Nat.add_sub_cancel_left]

end Code

namespace Machine

variable {World : Type}

/-- The bytes from an offset of the code segment on. -/
def codeAt (m : Machine World) (offset : Word) : Code :=
  fun k => m.cpu.readByte .cs (offset + BitVec.ofNat 16 k)

theorem codeAt_ip (m : Machine World) : m.codeAt m.cpu.registers.ip = m.code := rfl

theorem drop_codeAt (m : Machine World) (offset : Word) (n : Nat) :
    (m.codeAt offset).drop n = m.codeAt (offset + BitVec.ofNat 16 n) := by
  funext k
  rw [Code.drop_apply, codeAt, codeAt, BitVec.add_assoc, ← BitVec.ofNat_add]

/-- These prefixes stand between the remembered start and IP. -/
structure HasRead (m : Machine World) (start : Word) (bytes : List Byte) : Prop where
  ip : m.cpu.registers.ip = start + BitVec.ofNat 16 bytes.length
  holds : (m.codeAt start).Holds bytes
  prefixes : ∀ b ∈ bytes, b.IsPrefix

/-- If prefixes are pending, they are those that have been read, in full portions. -/
def PendingRun (m : Machine World) : Prop :=
  ∀ p, m.pending = some p → ∃ n bytes, 1 ≤ n ∧ bytes.length = maxPrefixRun * n ∧
    m.HasRead m.cpu.registers.opIp bytes ∧ p = .ofBytes bytes

variable {m : Machine World}

theorem pendingRun_of_none (none : m.pending = none) : m.PendingRun := by
  intro p pending
  rw [none] at pending
  cases pending

/-- What has been read of the instruction at hand, whether or not prefixes are pending. -/
theorem PendingRun.hasRead (run : m.PendingRun) :
    ∃ n bytes, bytes.length = maxPrefixRun * n ∧ m.HasRead m.instructionStart bytes ∧
      m.pending.getD {} = .ofBytes bytes := by
  cases pending : m.pending with
  | none =>
      refine ⟨0, [], rfl, ⟨?_, nofun, nofun⟩, rfl⟩
      rw [instructionStart_of_none pending]
      exact (BitVec.add_zero _).symm
  | some p =>
      obtain ⟨n, bytes, _, length, read, rfl⟩ := run p pending
      have start : m.instructionStart = m.cpu.registers.opIp := by
        rw [instructionStart, pending]
        rfl
      exact ⟨n, bytes, length, start ▸ read, rfl⟩

/-- Prefixes at IP continue those that have been read. -/
theorem HasRead.append {start : Word} {bytes more : List Byte} (read : m.HasRead start bytes)
    (holds : m.code.Holds more) (prefixes : ∀ b ∈ more, b.IsPrefix) :
    (m.codeAt start).Holds (bytes ++ more) ∧ ∀ b ∈ bytes ++ more, b.IsPrefix := by
  constructor
  · refine read.holds.append ?_
    rw [drop_codeAt, ← read.ip]
    exact holds
  · intro b hb
    rcases List.mem_append.mp hb with hb | hb
    · exact read.prefixes b hb
    · exact prefixes b hb

/-- What is fetched in a step depends on all prefixes that have been read and that stand at IP: so
many of these that the step ends with them, or fewer. -/
theorem PendingRun.fetched (run : m.PendingRun) :
    ∃ n bytes more, bytes.length = maxPrefixRun * n ∧ m.HasRead m.instructionStart bytes ∧
      m.code.Holds more ∧ (∀ b ∈ more, b.IsPrefix) ∧
      (more.length = maxPrefixRun ∧
          m.fetched = .prefixes (.ofBytes (bytes ++ more)) maxPrefixRun ∨
        more.length < maxPrefixRun ∧ ¬(m.code more.length).IsPrefix ∧
          m.fetched =
            match (m.code.drop more.length).decode? (.ofBytes (bytes ++ more)) with
            | some (i, length) => .instruction i (more.length + length)
            | none => .undefined (m.code more.length)) := by
  obtain ⟨n, bytes, portions, read, pending⟩ := run.hasRead
  obtain ⟨more, holds, prefixes, ⟨less, stop⟩ | all⟩ := m.code.exists_prefixes maxPrefixRun
  · have fetched := Fetched.ofCode_of_lt holds prefixes stop less (m.pending.getD {})
    rw [pending, ofBytes_extend] at fetched
    rw [← pending] at fetched
    exact ⟨n, bytes, more, portions, read, holds, prefixes, .inr ⟨less, stop, fetched⟩⟩
  · have fetched := Fetched.ofCode_of_le holds prefixes (Nat.le_of_eq all.symm)
      (m.pending.getD {})
    rw [← all, List.take_length, pending, ofBytes_extend, all, ← pending] at fetched
    exact ⟨n, bytes, more, portions, read, holds, prefixes, .inl ⟨all, fetched⟩⟩

/-- Every step keeps pending prefixes what they are. -/
theorem PendingRun.step (run : m.PendingRun) : m.step.2.PendingRun := by
  cases running : m.cpu.halted with
  | true =>
      rw [step_of_halted running]
      exact run
  | false =>
      obtain ⟨n, bytes, more, portions, read, holds, prefixes, ⟨all, fetched⟩ | ⟨_, _, fetched⟩⟩ :=
        run.fetched
      · rw [step_of_prefixes running fetched]
        rintro p ⟨⟩
        obtain ⟨there, taken⟩ := read.append holds prefixes
        have length : (bytes ++ more).length = maxPrefixRun * (n + 1) := by
          rw [List.length_append, portions, all, Nat.mul_succ]
        refine ⟨n + 1, bytes ++ more, n.succ_pos, length, ⟨?_, ?_, taken⟩, rfl⟩
        · rw [markStart_eq]
          show m.cpu.registers.ip + BitVec.ofNat 16 maxPrefixRun =
            m.instructionStart + BitVec.ofNat 16 (bytes ++ more).length
          rw [read.ip, List.length_append, all, BitVec.ofNat_add, BitVec.add_assoc]
        · rw [markStart_eq]
          exact there
      · apply pendingRun_of_none
        split at fetched
        · rw [step_of_instruction running fetched, pending_perform]
        · rw [step_of_undefined running fetched]
          rfl

/-- An instruction is decoded under the prefixes in front of it, from the place on where it begins,
and no others. -/
theorem PendingRun.own_prefixes (run : m.PendingRun) {i : Instruction} {length : Nat}
    (fetched : m.fetched = .instruction i length) :
    ∃ bytes rest, (m.codeAt m.instructionStart).Holds bytes ∧ (∀ b ∈ bytes, b.IsPrefix) ∧
      ¬(m.codeAt m.instructionStart bytes.length).IsPrefix ∧
      ((m.codeAt m.instructionStart).drop bytes.length).decode? (.ofBytes bytes) =
        some (i, rest) ∧
      m.cpu.registers.ip + BitVec.ofNat 16 length =
        m.instructionStart + BitVec.ofNat 16 (bytes.length + rest) := by
  obtain ⟨n, bytes, more, _, read, holds, prefixes, ⟨_, found⟩ | ⟨_, stop, found⟩⟩ := run.fetched
  · rw [fetched] at found
    cases found
  · obtain ⟨there, all⟩ := read.append holds prefixes
    have behind : (m.codeAt m.instructionStart).drop (bytes ++ more).length =
        m.code.drop more.length := by
      rw [List.length_append, ← Code.drop_drop, drop_codeAt, ← read.ip, codeAt_ip]
    rw [fetched] at found
    cases decoded : (m.code.drop more.length).decode? (.ofBytes (bytes ++ more)) with
    | none =>
        rw [decoded] at found
        cases found
    | some pair =>
        obtain ⟨j, rest⟩ := pair
        rw [decoded] at found
        cases found
        refine ⟨bytes ++ more, rest, there, all, ?_, ?_, ?_⟩
        · have first := congrFun behind 0
          rw [Code.drop_apply, Code.drop_apply, Nat.add_zero, Nat.add_zero] at first
          rwa [first]
        · rw [behind, decoded]
        · rw [read.ip, List.length_append, Nat.add_assoc, BitVec.add_assoc, ← BitVec.ofNat_add]

end Machine

end I8086
