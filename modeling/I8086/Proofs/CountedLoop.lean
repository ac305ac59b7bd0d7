import I8086.Proofs.FlagFrame
import I8086.Proofs.PrefixRun
import I8086.Proofs.Sum
import I8086.Proofs.Synonyms

/-!
# Counted loops

The shortest loop there is counts DX up and CX down. `Machine.afterRound` gives the machine when
some rounds are done, as a function of their number; one round is two steps, and whether another one
follows is decided by CX and ZF alone. So the number of rounds is the least one after which the loop
does not go on, and with CX alone it is CX itself, or the number of all words if CX is zero.
-/

namespace I8086

namespace Encoding

/-- The opcode of a jump that counts CX down. -/
def counting : LoopKind → Byte
  | .always => 0xE2
  | .whileZero => 0xE1
  | .whileNotZero => 0xE0

/-- `INC DX`, and behind it a jump back to it that counts CX down. -/
def countedLoop (kind : LoopKind) : List Byte := [0x42, counting kind, 0xFD]

theorem decode?_incDX (p : Prefixes) :
    (Code.ofList [0x42]).decode? p = some (.inc .word (.register 2), 1) :=
  Code.decode?_ofList (.incRegister 2) rfl rfl

theorem decode?_counting (kind : LoopKind) (d : Byte) (p : Prefixes) :
    (Code.ofList [counting kind, d]).decode? p = some (.loop kind d.signExtend, 2) := by
  refine Code.decode?_ofList (.loop kind) ?_ rfl
  cases kind <;> rfl

end Encoding

/-- Counting up again sets the same flags again, so only the last value counts. -/
theorem snd_increment_increment {n : Nat} (f : Flags) (x y : BitVec n) :
    (increment (increment f x).2 y).2 = (increment f y).2 := by
  simp only [increment, AluOp.apply, Flags.withSum, Flags.withResult]

theorem fst_increment {n : Nat} (f : Flags) (x : BitVec n) : (increment f x).1 = x + 1 := by
  have sum : (increment f x).1 = (Sum.add x 1 false).value := by
    simp only [increment, AluOp.apply]
  rw [sum, Sum.value_add]
  simp

theorem zero_increment {n : Nat} (f : Flags) (x : BitVec n) :
    (increment f x).2.zero = (x + 1 == 0) := by
  rw [← fst_increment f]
  simp only [increment, AluOp.apply, Flags.withSum, Flags.withResult]

theorem carry_increment {n : Nat} (f : Flags) (x : BitVec n) :
    (increment f x).2.carry = f.carry := by
  simp only [increment]

namespace Machine

variable {World : Type} {m : Machine World} {kind : LoopKind}

/-! ## The two steps of a round -/

/-- An instruction without prefixes is fetched wherever its bytes are. -/
theorem fetched_of_holds {i : Instruction} {e : List Byte} (holds : m.code.Holds e)
    (decoded : (Code.ofList e).decode? (m.pending.getD {}) = some (i, e.length)) :
    m.fetched = .instruction i e.length := by
  have behindNothing : m.code.Holds ([] ++ e) := holds
  have fetched := fetched_of_decode? behindNothing nofun (by decide) decoded
  rwa [List.length_nil, Nat.zero_add] at fetched

theorem step_of_incDX (running : m.cpu.halted = false) (fresh : m.pending = none)
    (holds : m.code.Holds [0x42]) :
    m.step = (.ok .next, { m with
      cpu.registers := { m.cpu.registers with
        dx := m.cpu.registers.dx + 1
        ip := m.cpu.registers.ip + 1
        opIp := m.cpu.registers.ip }
      cpu.flags := (increment m.cpu.flags m.cpu.registers.dx).2
      count := m.count + 1 }) := by
  have fetched := fetched_of_holds holds (Encoding.decode?_incDX _)
  rw [step_of_next running fetched rfl rfl, instructionStart_of_none fresh,
    ← fst_increment m.cpu.flags, ← fresh]
  rfl

theorem step_of_counting (running : m.cpu.halted = false) (fresh : m.pending = none) {d : Byte}
    (holds : m.code.Holds [Encoding.counting kind, d]) :
    m.step = (.ok .next, { m with
      cpu.registers := { m.cpu.registers with
        cx := m.cpu.registers.cx - 1
        ip :=
          if m.cpu.registers.cx - 1 != 0 && kind.agrees m.cpu.flags then
            m.cpu.registers.ip + 2 + d.signExtend
          else m.cpu.registers.ip + 2
        opIp := m.cpu.registers.ip }
      count := m.count + 1 }) := by
  have fetched := fetched_of_holds holds (Encoding.decode?_counting kind d _)
  rw [step_of_next running fetched rfl rfl, instructionStart_of_none fresh, Instruction.flow,
    Cpu.execute, Cpu.loop_eq, ← fresh]
  generalize (m.cpu.registers.cx - 1 != 0 && kind.agrees m.cpu.flags) = taken
  cases taken <;> rfl

/-! ## Rounds -/

/-- The machine when so many rounds are done and DX has been counted up once more. -/
def inRound (m : Machine World) (n : Nat) : Machine World :=
  { m with
    cpu.registers := { m.cpu.registers with
      cx := m.cpu.registers.cx - BitVec.ofNat 16 n
      dx := m.cpu.registers.dx + BitVec.ofNat 16 (n + 1)
      ip := m.cpu.registers.ip + 1
      opIp := m.cpu.registers.ip }
    cpu.flags := (increment m.cpu.flags (m.cpu.registers.dx + BitVec.ofNat 16 n)).2
    count := m.count + (2 * n + 1) }

/-- The machine when one more round is done and has led to this offset. -/
def afterRound (m : Machine World) (n : Nat) (ip : Word) : Machine World :=
  { m with
    cpu.registers := { m.cpu.registers with
      cx := m.cpu.registers.cx - BitVec.ofNat 16 (n + 1)
      dx := m.cpu.registers.dx + BitVec.ofNat 16 (n + 1)
      ip := ip
      opIp := m.cpu.registers.ip + 1 }
    cpu.flags := (m.inRound n).cpu.flags
    count := m.count + 2 * (n + 1) }

/-- The machine when so many rounds are done and have all led back. -/
def beforeRound (m : Machine World) : Nat → Machine World
  | 0 => m
  | n + 1 => m.afterRound n m.cpu.registers.ip

theorem ip_beforeRound (m : Machine World) (n : Nat) :
    (m.beforeRound n).cpu.registers.ip = m.cpu.registers.ip := by
  cases n <;> rfl

/-- Whether the loop goes on when one more round is done. -/
def goesOn (m : Machine World) (kind : LoopKind) (n : Nat) : Bool :=
  m.cpu.registers.cx - BitVec.ofNat 16 (n + 1) != 0 && kind.agrees (m.inRound n).cpu.flags

/-- A distance is counted up by one. -/
theorem add_ofNat_succ (x : Word) (n : Nat) :
    x + BitVec.ofNat 16 n + 1 = x + BitVec.ofNat 16 (n + 1) := by
  rw [BitVec.add_assoc, BitVec.ofNat_add]
  rfl

theorem sub_ofNat_succ (x : Word) (n : Nat) :
    x - BitVec.ofNat 16 n - 1 = x - BitVec.ofNat 16 (n + 1) := by
  rw [BitVec.ofNat_add]
  bv_omega

section

variable (running : m.cpu.halted = false) (fresh : m.pending = none)
  (holds : m.code.Holds (Encoding.countedLoop kind))

include running fresh holds

theorem step_beforeRound (n : Nat) : (m.beforeRound n).step = (.ok .next, m.inRound n) := by
  have split : m.code.Holds ([0x42] ++ [Encoding.counting kind, 0xFD]) := holds
  have first := split.left
  cases n with
  | zero =>
      have counter : m.cpu.registers.cx - BitVec.ofNat 16 0 = m.cpu.registers.cx :=
        BitVec.sub_zero _
      have value : m.cpu.registers.dx + BitVec.ofNat 16 0 = m.cpu.registers.dx := BitVec.add_zero _
      rw [beforeRound, step_of_incDX running fresh first, inRound, counter, value]
      rfl
  | succ n =>
      have again := step_of_incDX (m := m.beforeRound (n + 1)) running fresh first
      simp only [beforeRound, afterRound, inRound, add_ofNat_succ, snd_increment_increment] at again
      exact again

theorem step_inRound (n : Nat) :
    (m.inRound n).step = (.ok .next, m.afterRound n
      (if m.goesOn kind n then m.cpu.registers.ip else m.cpu.registers.ip + 3)) := by
  have split : m.code.Holds ([0x42] ++ [Encoding.counting kind, 0xFD]) := holds
  have second : (m.code.drop 1).Holds [Encoding.counting kind, 0xFD] := split.right
  rw [← code_skip] at second
  have counter : (m.inRound n).cpu.registers.cx - 1 =
      m.cpu.registers.cx - BitVec.ofNat 16 (n + 1) := sub_ofNat_succ _ n
  have behind : (m.inRound n).cpu.registers.ip + 2 = m.cpu.registers.ip + 3 :=
    BitVec.add_assoc _ 1 2
  have back : m.cpu.registers.ip + 3 + Byte.signExtend 0xFD = m.cpu.registers.ip :=
    (BitVec.add_assoc _ 3 _).trans (BitVec.add_zero _)
  rw [step_of_counting (m := m.inRound n) running fresh second, counter, behind, back]
  rfl

/-- As long as the loop goes on, every round leads back to its start. -/
theorem stepped_double (n : Nat) (on : ∀ i < n, m.goesOn kind i = true) :
    m.stepped (2 * n) = m.beforeRound n := by
  induction n with
  | zero => rfl
  | succ n ih =>
      have done := ih fun i hi => on i (Nat.lt_succ_of_lt hi)
      have first := step_beforeRound running fresh holds n
      have second := step_inRound running fresh holds n
      rw [if_pos (on n (Nat.lt_succ_self n))] at second
      show (m.stepped (2 * n)).step.2.step.2 = m.beforeRound (n + 1)
      rw [done, first, second]
      rfl

end

/-! ## All rounds -/

/-- How often CX can be counted down before it is zero: once for every word if it is zero before. -/
def countdown (cx : Word) : Nat := if cx = 0 then 0x10000 else cx.toNat

theorem countdown_pos (cx : Word) : 0 < countdown cx := by
  unfold countdown
  split <;> bv_omega

/-- CX is zero when it has been counted down as often as that, and not before. -/
theorem sub_ofNat_eq_zero_iff {cx : Word} {n : Nat} (pos : 0 < n) (le : n ≤ countdown cx) :
    cx - BitVec.ofNat 16 n = 0 ↔ n = countdown cx := by
  have number : cx - BitVec.ofNat 16 n = 0 ↔ (0x10000 - n % 0x10000 + cx.toNat) % 0x10000 = 0 := by
    rw [← BitVec.toNat_inj, BitVec.toNat_sub, BitVec.toNat_ofNat]
    rfl
  have bound := cx.isLt
  rw [number]
  unfold countdown at le ⊢
  by_cases zero : cx = 0
  · have none : cx.toNat = 0 := congrArg BitVec.toNat zero
    rw [if_pos zero] at le ⊢
    omega
  · have positive : cx.toNat ≠ 0 := fun h => zero (BitVec.eq_of_toNat_eq h)
    rw [if_neg zero] at le ⊢
    omega

theorem goesOn_of_lt {n : Nat} (before : n + 1 < countdown m.cpu.registers.cx) :
    m.goesOn kind n = kind.agrees (m.inRound n).cpu.flags := by
  have counting : m.cpu.registers.cx - BitVec.ofNat 16 (n + 1) ≠ 0 := fun done =>
    Nat.ne_of_lt before ((sub_ofNat_eq_zero_iff n.succ_pos (Nat.le_of_lt before)).mp done)
  rw [goesOn, bne_iff_ne.mpr counting, Bool.true_and]

theorem goesOn_of_eq {n : Nat} (last : n + 1 = countdown m.cpu.registers.cx) :
    m.goesOn kind n = false := by
  have done := (sub_ofNat_eq_zero_iff n.succ_pos (Nat.le_of_eq last)).mpr last
  rw [goesOn, done]
  rfl

/-- There is a first round after which the loop does not go on. -/
theorem exists_last (m : Machine World) (kind : LoopKind) :
    ∃ n, n < countdown m.cpu.registers.cx ∧ (∀ i < n, m.goesOn kind i = true) ∧
      m.goesOn kind n = false := by
  have pos := countdown_pos m.cpu.registers.cx
  have ends : ∃ n, m.goesOn kind n = false :=
    ⟨countdown m.cpu.registers.cx - 1, goesOn_of_eq (Nat.sub_add_cancel pos)⟩
  refine ⟨Nat.find ends, ?_, fun i before => ?_, Nat.find_spec ends⟩
  · have least := Nat.find_min' ends (goesOn_of_eq (Nat.sub_add_cancel pos))
    omega
  · exact Bool.of_not_eq_false (Nat.find_min ends before)

/-- The loop takes as many rounds as CX says, or one for every word if CX is zero; a jump that looks
at ZF leaves it after the first round that sets ZF the other way. A round is two steps, and no step
but the last one leads behind the loop. In the end CX and DX have been counted by the number of
rounds, the flags are those of the last increment, CF is as it was, and nothing else has changed. -/
theorem counted_loop (running : m.cpu.halted = false) (fresh : m.pending = none)
    (holds : m.code.Holds [0x42, Encoding.counting kind, 0xFD]) :
    let r := m.cpu.registers
    let most := if r.cx = 0 then 0x10000 else r.cx.toNat
    ∃ n, 0 < n ∧ n ≤ most ∧
      (∀ i < n, (m.stepped (2 * i + 1)).cpu.flags.zero = (r.dx + BitVec.ofNat 16 (i + 1) == 0)) ∧
      (∀ i, i + 1 < n → kind.agrees (m.stepped (2 * i + 1)).cpu.flags = true) ∧
      (n = most ∨ kind.agrees (m.stepped (2 * n - 1)).cpu.flags = false) ∧
      (kind = .always → n = most) ∧
      (∀ j < 2 * n, (m.stepped j).step.1 = .ok .next ∧
        (m.stepped j).cpu.registers.ip ≠ r.ip + 3) ∧
      m.stepped (2 * n) = { m with
        cpu.registers := { r with
          cx := r.cx - BitVec.ofNat 16 n
          dx := r.dx + BitVec.ofNat 16 n
          ip := r.ip + 3
          opIp := r.ip + 1 }
        cpu.flags := (m.stepped (2 * n - 1)).cpu.flags
        count := m.count + 2 * n } ∧
      (m.stepped (2 * n)).cpu.flags.carry = m.cpu.flags.carry ∧
      (n = most → (m.stepped (2 * n)).cpu.registers.cx = 0) := by
  intro r most
  obtain ⟨last, before, on, off⟩ := m.exists_last kind
  have start (i : Nat) (le : i ≤ last) : m.stepped (2 * i) = m.beforeRound i :=
    stepped_double running fresh holds i fun k hk => on k (Nat.lt_of_lt_of_le hk le)
  have middle (i : Nat) (le : i ≤ last) : m.stepped (2 * i + 1) = m.inRound i := by
    show (m.stepped (2 * i)).step.2 = m.inRound i
    rw [start i le, step_beforeRound running fresh holds i]
  have behind : m.stepped (2 * (last + 1)) = m.afterRound last (r.ip + 3) := by
    show (m.stepped (2 * last + 1)).step.2 = m.afterRound last (r.ip + 3)
    rw [middle last (Nat.le_refl last), step_inRound running fresh holds last, off]
    rfl
  have odd : m.stepped (2 * (last + 1) - 1) = m.inRound last := middle last (Nat.le_refl last)
  refine ⟨last + 1, last.succ_pos, before, fun i hi => ?zero, fun i hi => ?agrees, ?ends,
    ?always, fun j hj => ?steps, ?final, ?carry, fun all => ?counter⟩
  case zero =>
    rw [middle i (Nat.le_of_lt_succ hi), ← add_ofNat_succ]
    exact zero_increment _ _
  case agrees =>
    have earlier : i < last := Nat.lt_of_succ_lt_succ hi
    rw [middle i (Nat.le_of_lt earlier), ← goesOn_of_lt (Nat.lt_of_le_of_lt earlier before)]
    exact on i earlier
  case ends =>
    rw [odd]
    refine (Nat.lt_or_eq_of_le before).symm.imp_right fun more => ?_
    rw [← goesOn_of_lt more]
    exact off
  case always =>
    rintro rfl
    refine (Nat.lt_or_eq_of_le before).elim (fun more => ?_) id
    rw [goesOn_of_lt more] at off
    nomatch off
  case steps =>
    obtain ⟨i, rfl | rfl⟩ := Nat.even_or_odd' j
    · rw [start i (by omega), step_beforeRound running fresh holds i, ip_beforeRound]
      have inside : r.ip ≠ r.ip + 3 := by bv_omega
      exact ⟨rfl, inside⟩
    · rw [middle i (by omega), step_inRound running fresh holds i]
      have inside : r.ip + 1 ≠ r.ip + 3 := by bv_omega
      exact ⟨rfl, inside⟩
  case final =>
    rw [odd, behind]
    rfl
  case carry =>
    rw [behind]
    exact carry_increment _ _
  case counter =>
    rw [behind]
    exact (sub_ofNat_eq_zero_iff last.succ_pos before).mpr all

/-- Three rounds from power-on. -/
theorem counted_loop_three :
    let m : Machine Unit :=
      { booted [0x42, 0xE2, 0xFD] with cpu.registers.cx := 3 }
    (m.stepped 6).cpu.registers.cx = 0 ∧ (m.stepped 6).cpu.registers.dx = 3 ∧
      (m.stepped 6).cpu.registers.ip = 3 := by
  intro m
  have holds : m.code.Holds [0x42, Encoding.counting .always, 0xFD] := code_booted (by decide)
  obtain ⟨n, -, -, -, -, -, all, -, after, -, -⟩ := counted_loop (m := m) rfl rfl holds
  obtain rfl : n = 3 := all rfl
  rw [after]
  refine ⟨?_, ?_, ?_⟩
  · show (3 : Word) - 3 = 0
    decide
  · show (0 : Word) + 3 = 3
    decide
  · show (0 : Word) + 3 = 3
    decide

end Machine

end I8086
