import I8086.Proofs.Displacement

/-!
# A run of prefixes before an instruction

However long a run of prefixes is, in whatever order and however often they occur in it, and
however the run is cut into steps: the steps before the last one change nothing but IP, the
remembered start, the pending prefixes and the count, and the last one executes the instruction
with the last segment and the last repetition of the whole run. The invariant is
`Machine.afterPrefixes`, the machine when so many full portions of the run have been read.
-/

namespace I8086.Machine

variable {World : Type}

/-- The machine after so many steps, whatever their results are. -/
def stepped (m : Machine World) : Nat → Machine World
  | 0 => m
  | n + 1 => (m.stepped n).step.2

/-- The machine when so many full portions of a run of prefixes have been read. -/
def afterPrefixes (m : Machine World) (bytes : List Byte) (n : Nat) : Machine World :=
  { m with
    cpu.registers.ip := m.cpu.registers.ip + BitVec.ofNat 16 (maxPrefixRun * n)
    cpu.registers.opIp := m.cpu.registers.ip
    pending := some (.ofBytes (bytes.take (maxPrefixRun * n)))
    count := m.count + n }

/-- The machine behind a run of prefixes, with the steps counted that they take by themselves. -/
def behindPrefixes (m : Machine World) (bytes : List Byte) : Machine World :=
  m.moved (m.cpu.registers.ip + BitVec.ofNat 16 bytes.length) m.cpu.registers.ip
    (m.count + bytes.length / maxPrefixRun)

theorem code_moved (m : Machine World) (n : Nat) (opIp : Word) (count : Nat) :
    (m.moved (m.cpu.registers.ip + BitVec.ofNat 16 n) opIp count).code = m.code.drop n :=
  m.code_skip n

theorem code_behindPrefixes (m : Machine World) (bytes : List Byte) :
    (m.behindPrefixes bytes).code = m.code.drop bytes.length :=
  m.code_skip bytes.length

/-- Behind their prefixes two machines are as far apart as the ends of the prefixes are. -/
theorem behindPrefixes_moved (m : Machine World) (bytes bytes' : List Byte) (ip opIp : Word)
    (count : Nat) :
    (m.moved ip opIp count).behindPrefixes bytes' =
      (m.behindPrefixes bytes).moved
        ((m.behindPrefixes bytes).cpu.registers.ip +
          (ip + BitVec.ofNat 16 bytes'.length -
            (m.cpu.registers.ip + BitVec.ofNat 16 bytes.length)))
        ip (count + bytes'.length / maxPrefixRun) := by
  have distance (x y : Word) : x + (y - x) = y := by rw [BitVec.add_comm, BitVec.sub_add_cancel]
  simp only [behindPrefixes, moved, Cpu.registers_relocate, Registers.ip_relocate, distance]
  rfl

theorem code_afterPrefixes (m : Machine World) (bytes : List Byte) (n : Nat) :
    (m.afterPrefixes bytes n).code = m.code.drop (maxPrefixRun * n) :=
  m.code_skip (maxPrefixRun * n)

variable {m : Machine World} {bytes : List Byte}

/-- The first portion is read from the machine at the start of the run. -/
theorem step_of_first_portion (running : m.cpu.halted = false) (fresh : m.pending = none)
    (holds : m.code.Holds bytes) (prefixes : ∀ b ∈ bytes, b.IsPrefix)
    (long : maxPrefixRun ≤ bytes.length) : m.step = (.ok .next, m.afterPrefixes bytes 1) := by
  rw [step_of_long_run running holds prefixes long, markStart_of_none fresh, fresh]
  simp only [Option.getD_none, Prefixes.empty_extend]
  rfl

/-- The effect of a run that is read in two portions. -/
theorem ofBytes_extend (first second : List Byte) :
    (Prefixes.ofBytes first).extend second = .ofBytes (first ++ second) := by
  rw [← Prefixes.empty_extend, ← Prefixes.empty_extend, Prefixes.extend_extend]

/-- What is left of the run when so many full portions have been read. -/
theorem code_holds_rest (holds : m.code.Holds bytes) (n : Nat) :
    (m.afterPrefixes bytes n).code.Holds (bytes.drop (maxPrefixRun * n)) := by
  rw [code_afterPrefixes]
  exact holds.drop _

/-- Every later portion continues the ones before it. -/
theorem step_of_later_portion (running : m.cpu.halted = false) (holds : m.code.Holds bytes)
    (prefixes : ∀ b ∈ bytes, b.IsPrefix) {n : Nat}
    (long : maxPrefixRun * (n + 1) ≤ bytes.length) :
    (m.afterPrefixes bytes n).step = (.ok .next, m.afterPrefixes bytes (n + 1)) := by
  have room : maxPrefixRun ≤ (bytes.drop (maxPrefixRun * n)).length := by
    rw [List.length_drop]
    rw [Nat.mul_succ] at long
    omega
  have step := step_of_long_run (m := m.afterPrefixes bytes n) running (code_holds_rest holds n)
    (fun b hb => prefixes b (List.mem_of_mem_drop hb)) room
  have taken : (Prefixes.ofBytes (bytes.take (maxPrefixRun * n))).extend
      ((bytes.drop (maxPrefixRun * n)).take maxPrefixRun) =
      .ofBytes (bytes.take (maxPrefixRun * (n + 1))) := by
    rw [ofBytes_extend, Nat.mul_succ, List.take_add]
  have place : m.cpu.registers.ip + BitVec.ofNat 16 (maxPrefixRun * n) +
      BitVec.ofNat 16 maxPrefixRun =
      m.cpu.registers.ip + BitVec.ofNat 16 (maxPrefixRun * (n + 1)) := by
    rw [BitVec.add_assoc, ← BitVec.ofNat_add, Nat.mul_succ]
  rw [step, markStart_of_isSome rfl]
  simp only [keepPrefixes, afterPrefixes, Option.getD_some, taken, Cpu.advance, place,
    Nat.add_assoc]

/-- Each step before the last one reads a full portion. -/
theorem step_of_portion (running : m.cpu.halted = false) (fresh : m.pending = none)
    (holds : m.code.Holds bytes) (prefixes : ∀ b ∈ bytes, b.IsPrefix) {n : Nat}
    (more : n < bytes.length / maxPrefixRun) :
    (m.stepped n).step = (.ok .next, m.afterPrefixes bytes (n + 1)) := by
  have long : maxPrefixRun * (n + 1) ≤ bytes.length := by
    rw [Nat.mul_comm]
    exact (Nat.le_div_iff_mul_le (by decide)).mp more
  induction n with
  | zero => exact step_of_first_portion running fresh holds prefixes long
  | succ n ih =>
      have shorter : maxPrefixRun * (n + 1) ≤ bytes.length :=
        Nat.le_trans (Nat.mul_le_mul_left _ (by omega)) long
      have before := ih (Nat.lt_of_succ_lt more) shorter
      rw [stepped, before]
      exact step_of_later_portion running holds prefixes long

/-- The machine that the last step starts from. -/
theorem stepped_of_pos (running : m.cpu.halted = false) (fresh : m.pending = none)
    (holds : m.code.Holds bytes) (prefixes : ∀ b ∈ bytes, b.IsPrefix)
    (pos : 0 < bytes.length / maxPrefixRun) :
    m.stepped (bytes.length / maxPrefixRun) =
      m.afterPrefixes bytes (bytes.length / maxPrefixRun) := by
  obtain ⟨n, portions⟩ := Nat.exists_eq_succ_of_ne_zero (Nat.ne_of_gt pos)
  have last := step_of_portion running fresh holds prefixes (n := n) (by omega)
  rw [portions, stepped, last]

/-- Pending prefixes are of no account to an instruction that is executed under given ones. -/
theorem executeUnder_pending (m : Machine World) (pending : Option Prefixes) (p : Prefixes) :
    { m with pending }.executeUnder p = m.executeUnder p := rfl

/-- The last step executes the instruction under the prefixes of the whole run. -/
theorem step_of_last_portion (running : m.cpu.halted = false) (fresh : m.pending = none)
    (holds : m.code.Holds bytes) (prefixes : ∀ b ∈ bytes, b.IsPrefix)
    (stop : ¬(m.code bytes.length).IsPrefix) :
    (m.stepped (bytes.length / maxPrefixRun)).step =
      (m.behindPrefixes bytes).executeUnder (.ofBytes bytes) := by
  rcases Nat.eq_zero_or_pos (bytes.length / maxPrefixRun) with none | pos
  · have short : bytes.length < maxPrefixRun := (Nat.div_eq_zero_iff_lt (by decide)).mp none
    rw [none, stepped, step_of_run running holds prefixes stop short, markStart_of_none fresh,
      behindPrefixes, none, fresh, Option.getD_none, Prefixes.empty_extend]
    rfl
  · rw [stepped_of_pos running fresh holds prefixes pos]
    have total := Nat.div_add_mod bytes.length maxPrefixRun
    have room := Nat.mod_lt bytes.length (show 0 < maxPrefixRun by decide)
    generalize portions : bytes.length / maxPrefixRun = n at total
    have split : maxPrefixRun * n + (bytes.drop (maxPrefixRun * n)).length = bytes.length := by
      rw [List.length_drop]
      omega
    have step := step_of_run (m := m.afterPrefixes bytes n) running (code_holds_rest holds n)
      (fun b hb => prefixes b (List.mem_of_mem_drop hb))
      (by rwa [code_afterPrefixes, Code.drop_apply, split]) (by omega)
    have place : m.cpu.registers.ip + BitVec.ofNat 16 (maxPrefixRun * n) +
        BitVec.ofNat 16 (bytes.drop (maxPrefixRun * n)).length =
        m.cpu.registers.ip + BitVec.ofNat 16 bytes.length := by
      rw [BitVec.add_assoc, ← BitVec.ofNat_add, split]
    have all : (Prefixes.ofBytes (bytes.take (maxPrefixRun * n))).extend
        (bytes.drop (maxPrefixRun * n)) = .ofBytes bytes := by
      rw [ofBytes_extend, List.take_append_drop]
    rw [step, markStart_of_isSome rfl, afterPrefixes, Option.getD_some, all,
      ← executeUnder_pending (m.behindPrefixes bytes)
        (some (.ofBytes (bytes.take (maxPrefixRun * n))))]
    simp only [skip, behindPrefixes, moved, Cpu.advance, place, portions]
    rfl

/-- Executing an instruction leaves no prefixes pending, whatever comes of it. -/
theorem pending_executeUnder (m : Machine World) (p : Prefixes) :
    (m.executeUnder p).2.pending = none := by
  unfold executeUnder
  cases m.code.decode? p with
  | none => rfl
  | some found => exact pending_perform m found.1 found.2

/-- A run of prefixes and the instruction behind it. Each step but the last reads a full portion of
the run and changes nothing but IP, the remembered start, the pending prefixes and the count. The
last step is the execution of the instruction under the last segment and the last repetition of
the run, with the start of the run remembered, and leaves no prefixes pending. Another run of the
same effect, anywhere in the segment and before the same instruction, therefore does the same. -/
theorem step_of_prefix_run (running : m.cpu.halted = false) (fresh : m.pending = none)
    (holds : m.code.Holds bytes) (prefixes : ∀ b ∈ bytes, b.IsPrefix)
    (stop : ¬(m.code bytes.length).IsPrefix) :
    (∀ n < bytes.length / maxPrefixRun,
      (m.stepped n).step = (.ok .next, m.afterPrefixes bytes (n + 1))) ∧
    (m.stepped (bytes.length / maxPrefixRun)).step =
      (m.behindPrefixes bytes).executeUnder (.ofBytes bytes) ∧
    (m.stepped (bytes.length / maxPrefixRun + 1)).pending = none ∧
    ∀ ip opIp count bytes',
      (m.moved ip opIp count).code.Holds bytes' →
      (∀ b ∈ bytes', b.IsPrefix) →
      Prefixes.ofBytes bytes' = .ofBytes bytes →
      Code.Agree (Encoding.length (m.code.drop bytes.length)) (m.code.drop bytes.length)
        ((m.moved ip opIp count).code.drop bytes'.length) →
      SameEffect
        (ip + BitVec.ofNat 16 bytes'.length -
          (m.cpu.registers.ip + BitVec.ofNat 16 bytes.length))
        (m.stepped (bytes.length / maxPrefixRun)).step
        ((m.moved ip opIp count).stepped (bytes'.length / maxPrefixRun)).step := by
  have last := step_of_last_portion running fresh holds prefixes stop
  refine ⟨fun n more => step_of_portion running fresh holds prefixes more, last, ?_, ?_⟩
  · rw [stepped, last]
    exact pending_executeUnder _ _
  · intro ip opIp count bytes' holds' prefixes' effect agree
    have stop' : ¬((m.moved ip opIp count).code bytes'.length).IsPrefix := by
      have first := agree 0 (by rw [Encoding.length]; omega)
      rw [Code.drop_apply, Code.drop_apply, Nat.add_zero, Nat.add_zero] at first
      rwa [← first]
    have last' := step_of_last_portion (m := m.moved ip opIp count) running fresh holds' prefixes'
      stop'
    rw [last, last', effect, behindPrefixes_moved]
    refine executeUnder_moved _ ?_
    rwa [← behindPrefixes_moved, code_behindPrefixes, code_behindPrefixes]

/-- Seventeen prefixes take a step by themselves, and have the effect of one. -/
theorem step_of_seventeen_prefixes :
    let m := booted (List.replicate 17 0x26 ++ [0x90, 0x26, 0x90])
    m.step = (.ok .next, m.afterPrefixes (List.replicate 17 0x26) 1) ∧
      SameEffect 2 (m.stepped 1).step ((m.moved 18 18 0).stepped 0).step := by
  intro m
  have holds : m.code.Holds (List.replicate 17 0x26 ++ [0x90, 0x26, 0x90]) :=
    code_booted (by decide)
  have first : m.code 17 = 0x90 := holds 17 (by decide)
  have second : (m.moved 18 18 0).code = m.code.drop 18 := code_moved m 18 18 0
  have distance : 18 + BitVec.ofNat 16 1 - (m.cpu.registers.ip + BitVec.ofNat 16 17) = 2 := by
    rw [show m.cpu.registers.ip = 0 from rfl]
    decide
  have run := step_of_prefix_run (m := m) rfl rfl holds.left (by decide)
    (by rw [List.length_replicate, first]; decide)
  refine ⟨run.1 0 (by decide), ?_⟩
  rw [← distance]
  refine run.2.2.2 18 18 0 [0x26] ?_ (by decide) (by decide) ?_
  · rw [second]
    exact Code.Holds.left (show (m.code.drop 18).Holds ([0x26] ++ [0x90]) from holds.drop 18)
  · have length : Encoding.length (m.code.drop 17) = 1 := by
      rw [Encoding.length, Code.drop_apply, first]
      rfl
    rw [second, Code.drop_drop, List.length_replicate, length]
    intro i hi
    obtain rfl : i = 0 := by omega
    exact first.trans (holds 19 (by decide)).symm

end I8086.Machine
