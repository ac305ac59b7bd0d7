import I8086.Proofs.Footprint
import I8086.Proofs.MultiplyDivide

/-!
# Repeated string operations

A repeated string operation deals with one element after the other and counts CX down for each of
them, all in one step. `Cpu.afterElements` is the state when so many have been dealt with, whether
or not the repetition gets that far. What it does to the registers is said here once for all
operations that have a destination: every index register stands at the element that comes next, and
CX has been reduced by the number of elements. What the elements do to memory and flags is the
business of the modules on transfers and on searches.
-/

namespace I8086

namespace Encoding

/-- The opcode of a string operation on bytes. -/
def stringFamily : StringOp → Byte
  | .movs => 0xA4
  | .cmps => 0xA6
  | .stos => 0xAA
  | .lods => 0xAC
  | .scas => 0xAE

theorem decode?_string (op : StringOp) (w : Width) (p : Prefixes) :
    (Code.ofList [sized (stringFamily op) w]).decode? p =
      some (.string w op p.dataSegment p.repetition, 1) := by
  refine Code.decode?_ofList (.string op w) ?_ rfl
  cases op <;> cases w <;> rfl

end Encoding

namespace Cpu

variable (c : Cpu) (w : Width) (op : StringOp) (source : Segment)

/-! ## The places of the elements -/

/-- The offset of the element with a number, counted from 0 in the direction that DF says. -/
def elementAt (w : Width) (start : Word) (k : Nat) : Word :=
  if c.flags.direction then start - BitVec.ofNat 16 (k * w.bytes)
  else start + BitVec.ofNat 16 (k * w.bytes)

theorem elementAt_eq (start : Word) (k : Nat) :
    c.elementAt w start k = start + BitVec.ofNat 16 k * c.stride w := by
  rw [elementAt, stride, BitVec.ofNat_mul]
  cases c.flags.direction with
  | false => rfl
  | true =>
      change start - _ = start + BitVec.ofNat 16 k * -BitVec.ofNat 16 w.bytes
      rw [BitVec.mul_neg, BitVec.sub_eq_add_neg]

theorem elementAt_zero (start : Word) : c.elementAt w start 0 = start := by
  rw [elementAt_eq]
  exact (congrArg (start + ·) BitVec.zero_mul).trans (BitVec.add_zero start)

theorem elementAt_succ (start : Word) (k : Nat) :
    c.elementAt w start (k + 1) = c.elementAt w start k + c.stride w := by
  rw [elementAt_eq, elementAt_eq, BitVec.ofNat_add, BitVec.add_mul, BitVec.add_assoc]
  congr 2
  exact BitVec.one_mul _

/-! ## One element and its count -/

/-- One element, counted in CX. -/
def countedElement : Cpu :=
  let d := c.stringElement w op source
  d.setRegister .cx (d.registers.cx - 1)

/-- The state when `k` elements have been dealt with. -/
def afterElements (k : Nat) : Cpu := (fun d => countedElement d w op source)^[k] c

theorem afterElements_succ (k : Nat) :
    c.afterElements w op source (k + 1) =
      (c.afterElements w op source k).countedElement w op source :=
  Function.iterate_succ_apply' _ _ _

variable {op}

/-- The index registers move to the next element. -/
theorem registers_countedElement (target : op.stores = true ∨ op.compares = true) :
    (c.countedElement w op source).registers =
      { c.registers with
        cx := c.registers.cx - 1
        si := if op.loads then c.registers.si + c.stride w else c.registers.si
        di := c.registers.di + c.stride w } := by
  cases op with
  | movs | cmps | stos | scas => cases w <;> rfl
  | lods => exact absurd target (by decide)

theorem direction_countedElement :
    (c.countedElement w op source).flags.direction = c.flags.direction := by
  cases op <;> cases w <;> rfl

theorem halted_countedElement : (c.countedElement w op source).halted = c.halted := by
  cases op <;> cases w <;> rfl

/-! ## Any number of elements -/

theorem direction_afterElements (k : Nat) :
    (c.afterElements w op source k).flags.direction = c.flags.direction := by
  induction k with
  | zero => rfl
  | succ k ih => rw [afterElements_succ, direction_countedElement, ih]

theorem halted_afterElements (k : Nat) : (c.afterElements w op source k).halted = c.halted := by
  induction k with
  | zero => rfl
  | succ k ih => rw [afterElements_succ, halted_countedElement, ih]

theorem registers_afterElements (target : op.stores = true ∨ op.compares = true) (k : Nat) :
    (c.afterElements w op source k).registers =
      { c.registers with
        cx := c.registers.cx - BitVec.ofNat 16 k
        si := if op.loads then c.elementAt w c.registers.si k else c.registers.si
        di := c.elementAt w c.registers.di k } := by
  induction k with
  | zero =>
      change c.registers = _
      rw [elementAt_zero, elementAt_zero, ite_self, BitVec.sub_zero]
  | succ k ih =>
      have stride : (c.afterElements w op source k).stride w = c.stride w := by
        rw [Cpu.stride, direction_afterElements]
        rfl
      have count : c.registers.cx - BitVec.ofNat 16 k - 1 =
          c.registers.cx - BitVec.ofNat 16 (k + 1) := by
        bv_omega
      rw [afterElements_succ, registers_countedElement _ w source target, ih, stride]
      dsimp only
      rw [elementAt_succ, elementAt_succ, count]
      split <;> rfl

/-- The elements lie in the segments that they lay in before. -/
theorem address_afterElements (target : op.stores = true ∨ op.compares = true) (k : Nat)
    (s : Segment) (offset : Word) :
    (c.afterElements w op source k).address s offset = c.address s offset := by
  rw [address, registers_afterElements c w source target]
  cases s <;> rfl

/-! ## The end of the repetition -/

variable {w source} {r : Repetition} {n : Nat}

theorem stringElements_countedElement :
    stringElements w op source r (n + 1) c =
      let d := c.countedElement w op source
      if op.compares && !r.continues d.flags.zero then d
      else stringElements w op source r n d := rfl

/-- Without a comparison all elements are dealt with. -/
theorem stringElements_of_stores (stores : op.compares = false) :
    stringElements w op source r n c = c.afterElements w op source n := by
  induction n generalizing c with
  | zero => rfl
  | succ n ih =>
      rw [stringElements_countedElement, stores]
      exact ih (c.countedElement w op source)

/-- An element whose comparison lets the repetition go on, or that is not compared. -/
theorem stringElements_of_continues
    (continues : r.continues (c.countedElement w op source).flags.zero = true) :
    stringElements w op source r (n + 1) c =
      stringElements w op source r n (c.countedElement w op source) := by
  rw [stringElements_countedElement]
  simp only [continues, Bool.not_true, Bool.and_false, Bool.false_eq_true, if_false]

/-- All elements are dealt with if every comparison lets the repetition go on. -/
theorem stringElements_of_all
    (continues : ∀ k < n, r.continues (c.afterElements w op source (k + 1)).flags.zero = true) :
    stringElements w op source r n c = c.afterElements w op source n := by
  induction n generalizing c with
  | zero => rfl
  | succ n ih =>
      rw [stringElements_of_continues c (continues 0 n.succ_pos)]
      refine ih (c.countedElement w op source) ?_
      intro k below
      exact continues (k + 1) (Nat.succ_lt_succ below)

/-- The first comparison that does not let it go on is the last one. -/
theorem stringElements_of_first (compares : op.compares = true) {k : Nat} (below : k < n)
    (continues : ∀ j < k, r.continues (c.afterElements w op source (j + 1)).flags.zero = true)
    (stops : r.continues (c.afterElements w op source (k + 1)).flags.zero = false) :
    stringElements w op source r n c = c.afterElements w op source (k + 1) := by
  obtain ⟨n, rfl⟩ := Nat.exists_eq_succ_of_ne_zero (Nat.ne_zero_of_lt below)
  induction k generalizing c n with
  | zero =>
      change r.continues (c.countedElement w op source).flags.zero = false at stops
      rw [stringElements_countedElement]
      simp only [stops, compares, Bool.not_false, Bool.and_true, if_true]
      rfl
  | succ k ih =>
      have below : k < n := Nat.lt_of_succ_lt_succ below
      obtain ⟨n, rfl⟩ := Nat.exists_eq_succ_of_ne_zero (Nat.ne_zero_of_lt below)
      rw [stringElements_of_continues c (continues 0 k.succ_pos)]
      refine ih (c.countedElement w op source) ?_ stops n below
      intro j before
      exact continues (j + 1) (Nat.succ_lt_succ before)

end Cpu

/-! ## A step -/

namespace Machine

variable {World : Type} {m : Machine World} {op : StringOp} {w : Width} {source : Segment}
  {r : Repetition} {length : Nat}

/-- At `CS:IP` stand prefixes, fewer than a step may read, and a string operation. Together with the
prefixes that earlier steps have read they ask for a repetition and choose the segment of its
source. -/
def Repeats (m : Machine World) (op : StringOp) (w : Width) (source : Segment) (r : Repetition)
    (length : Nat) : Prop :=
  ∃ bytes, (∀ b ∈ bytes, b.IsPrefix) ∧ bytes.length < maxPrefixRun ∧
    m.code.Holds (bytes ++ [Encoding.sized (Encoding.stringFamily op) w]) ∧
    ((m.pending.getD {}).extend bytes).dataSegment = source ∧
    ((m.pending.getD {}).extend bytes).repetition = some r ∧ length = bytes.length + 1

/-- The step goes on behind a string operation of this length that has dealt with `k` elements and
has left behind this memory and these flags. -/
def DealsWith (m : Machine World) (op : StringOp) (w : Width) (length k : Nat) (memory : Memory)
    (f : Flags) : Prop :=
  m.step = (.ok .next, { m with
    cpu := { m.cpuBehind length with
      memory := memory
      flags := f
      registers := { (m.cpuBehind length).registers with
        cx := m.cpu.registers.cx - BitVec.ofNat 16 k
        si := if op.loads then m.cpu.elementAt w m.cpu.registers.si k else m.cpu.registers.si
        di := m.cpu.elementAt w m.cpu.registers.di k } }
    pending := none
    count := m.count + 1 })

theorem fetched_of_repeats (stands : m.Repeats op w source r length) :
    m.fetched = .instruction (.string w op source (some r)) length := by
  obtain ⟨bytes, prefixes, short, holds, chosen, asks, rfl⟩ := stands
  have decoded := Encoding.decode?_string op w ((m.pending.getD {}).extend bytes)
  rw [chosen, asks] at decoded
  exact fetched_of_decode? holds prefixes short decoded

/-- If the repetition comes to its end behind `k` elements, then so does the step. -/
theorem dealsWith_of_repeats (running : m.cpu.halted = false)
    (stands : m.Repeats op w source r length) (target : op.stores = true ∨ op.compares = true)
    {k : Nat}
    (ends : Cpu.stringElements w op source r m.cpu.registers.cx.toNat m.cpu =
      m.cpu.afterElements w op source k) :
    m.DealsWith op w length k (m.cpu.afterElements w op source k).memory
      (m.cpu.afterElements w op source k).flags := by
  have step := step_of_fetched running (fetched_of_repeats stands)
  have moved := m.cpu.string_relocate (m.cpu.registers.ip + BitVec.ofNat 16 length)
    m.instructionStart w op source (some r)
  have state : m.cpu.string w op source (some r) =
      { m.cpu.afterElements w op source k with
        halted := m.cpu.halted
        registers := { m.cpu.registers with
          cx := m.cpu.registers.cx - BitVec.ofNat 16 k
          si := if op.loads then m.cpu.elementAt w m.cpu.registers.si k else m.cpu.registers.si
          di := m.cpu.elementAt w m.cpu.registers.di k } } := by
    have halted : (m.cpu.afterElements w op source k).halted = m.cpu.halted :=
      m.cpu.halted_afterElements w source k
    rw [← Cpu.registers_afterElements m.cpu w source target, ← halted]
    exact ends
  rw [state] at moved
  rw [DealsWith, step]
  change concluded (follow { m with
    cpu := (m.cpuBehind length).string w op source (some r), pending := none } .next) = _
  rw [cpuBehind, moved]
  rfl

end Machine

end I8086
