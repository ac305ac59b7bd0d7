import I8086.Proofs.Comparison
import I8086.Proofs.Repetition

/-!
# Searching with repeated comparisons

Repeated `SCAS` and `CMPS` look for the first pair of values that are equal, or under the other
repeat prefix different. ZF is looked at only behind an element that has been counted, so a search
that finds its pair in the last element and one that finds none deal with the same number of
elements; their flags tell them apart.
-/

namespace I8086

namespace Repetition

/-- A comparison of these values ends the repetition. -/
def Stops {n : Nat} (r : Repetition) (x y : BitVec n) : Prop :=
  match r with
  | .whileNotZero => x = y
  | .whileZero => x ≠ y

theorem continues_comparison {n : Nat} (r : Repetition) (f : Flags) (x y : BitVec n) :
    r.continues (comparison f x y).zero = false ↔ r.Stops x y := by
  have zero := zero_comparison f x y
  cases r with
  | whileNotZero => rw [continues, Bool.not_eq_false', zero, Stops]
  | whileZero => rw [continues, ← Bool.not_eq_true, zero, Stops]

end Repetition

/-- Of two comparisons the flags tell the second only. -/
theorem comparison_comparison {m n : Nat} (f : Flags) (a b : BitVec m) (x y : BitVec n) :
    comparison (comparison f a b) x y = comparison f x y := by
  simp only [comparison, AluOp.apply, Flags.withSum, Flags.withResult]

namespace Cpu

variable (c : Cpu) {w : Width} {op : StringOp} {source : Segment} {r : Repetition} {n k : Nat}

/-! ## The pairs that are compared -/

/-- The values that the element with a number compares: the accumulator or an element of the source,
and an element of the destination. -/
def comparedAt (c : Cpu) (w : Width) (op : StringOp) (source : Segment) (k : Nat) :
    w.Value × w.Value :=
  (if op.loads then c.load w source (c.elementAt w c.registers.si k) else c.accumulator w,
    c.load w .es (c.elementAt w c.registers.di k))

/-- The search stops at the element with a number. -/
def StopsAt (c : Cpu) (w : Width) (op : StringOp) (source : Segment) (r : Repetition)
    (k : Nat) : Prop :=
  r.Stops (c.comparedAt w op source k).1 (c.comparedAt w op source k).2

theorem memory_afterElements (compares : op.compares = true) (k : Nat) :
    (c.afterElements w op source k).memory = c.memory := by
  induction k with
  | zero => rfl
  | succ k ih =>
      rw [afterElements_succ, ← ih]
      cases op with
      | cmps | scas => cases w <;> rfl
      | movs | stos | lods => cases compares

theorem load_afterElements (compares : op.compares = true) (k : Nat) (s : Segment)
    (offset : Word) : (c.afterElements w op source k).load w s offset = c.load w s offset := by
  have byte (offset : Word) :
      (c.afterElements w op source k).readByte s offset = c.readByte s offset := by
    rw [readByte, c.address_afterElements w source (.inr compares), c.memory_afterElements compares]
    rfl
  cases w with
  | byte => exact byte offset
  | word => exact congrArg₂ Word.ofBytes (byte offset) (byte (offset + 1))

theorem flags_countedElement (compares : op.compares = true) :
    (c.countedElement w op source).flags =
      comparison c.flags
        (if op.loads then c.load w source c.registers.si else c.accumulator w)
        (c.load w .es c.registers.di) := by
  cases op with
  | cmps | scas => cases w <;> rfl
  | movs | stos | lods => cases compares

/-- The next element compares its pair in the memory that there was. -/
theorem comparedAt_eq (compares : op.compares = true) (k : Nat) :
    c.comparedAt w op source k =
      let d := c.afterElements w op source k
      (if op.loads then d.load w source d.registers.si else d.accumulator w,
        d.load w .es d.registers.di) := by
  have registers := registers_afterElements c w source (.inr compares) k
  have accumulator : (c.afterElements w op source k).accumulator w = c.accumulator w := by
    rw [Cpu.accumulator, registers]
    cases w <;> rfl
  dsimp only
  rw [load_afterElements c compares, load_afterElements c compares, accumulator, registers,
    comparedAt]
  cases op.loads <;> rfl

/-- The flags are those of the last comparison. -/
theorem flags_afterElements_succ (compares : op.compares = true) (k : Nat) :
    (c.afterElements w op source (k + 1)).flags =
      comparison c.flags (c.comparedAt w op source k).1 (c.comparedAt w op source k).2 := by
  have last (k : Nat) : (c.afterElements w op source (k + 1)).flags =
      comparison (c.afterElements w op source k).flags (c.comparedAt w op source k).1
        (c.comparedAt w op source k).2 := by
    rw [afterElements_succ, flags_countedElement _ compares, comparedAt_eq c compares]
  induction k with
  | zero => exact last 0
  | succ k ih => rw [last, ih, comparison_comparison]

theorem continues_afterElements (compares : op.compares = true) (k : Nat) :
    r.continues (c.afterElements w op source (k + 1)).flags.zero = false ↔
      c.StopsAt w op source r k := by
  rw [flags_afterElements_succ c compares]
  exact r.continues_comparison _ _ _

/-! ## The search -/

/-- The first element that stops the search is the last one that it deals with, and without any it
deals with all. -/
theorem stringElements_search (w : Width) (source : Segment) (r : Repetition) (n : Nat)
    (compares : op.compares = true) :
    ∃ k, stringElements w op source r n c = c.afterElements w op source k ∧
      ((∃ i < n, c.StopsAt w op source r i ∧ (∀ j < i, ¬c.StopsAt w op source r j) ∧ k = i + 1) ∨
        (∀ i < n, ¬c.StopsAt w op source r i) ∧ k = n) := by
  have goesOn (j : Nat) (passes : ¬c.StopsAt w op source r j) :
      r.continues (c.afterElements w op source (j + 1)).flags.zero = true :=
    Bool.not_eq_false _ ▸ mt (continues_afterElements c compares j).mp passes
  by_cases found : ∃ i, i < n ∧ c.StopsAt w op source r i
  · classical
    obtain ⟨below, stops⟩ := Nat.find_spec found
    have before (j : Nat) (earlier : j < Nat.find found) : ¬c.StopsAt w op source r j := by
      intro stops
      exact Nat.find_min found earlier ⟨Nat.lt_trans earlier below, stops⟩
    refine ⟨Nat.find found + 1, ?_, .inl ⟨_, below, stops, before, rfl⟩⟩
    refine stringElements_of_first c compares below ?_ ?_
    · intro j earlier
      exact goesOn j (before j earlier)
    · exact (continues_afterElements c compares _).mpr stops
  · have none (i : Nat) (below : i < n) : ¬c.StopsAt w op source r i := by
      intro stops
      exact found ⟨i, below, stops⟩
    refine ⟨n, stringElements_of_all c ?_, .inr ⟨none, rfl⟩⟩
    intro k below
    exact goesOn k (none k below)

end Cpu

/-! ## A step -/

namespace Machine

variable {World : Type} {m : Machine World} {op : StringOp} {w : Width} {source : Segment}
  {r : Repetition} {length : Nat}

/-- Repeated `SCAS` and `CMPS` in one step, for every count, in either direction and under either
repeat prefix. There is a first element below the count whose comparison stops the search, and then
it is the last one that the step deals with; or there is none, and the step deals with all that CX
counts. CX goes down by their number, and DI, for `CMPS` also SI, moves as many elements on. The
flags are those of the last comparison, so unless CX was zero they tell whether the search has been
stopped. Without any comparison they stay as they were. Memory and all other registers but IP stay,
too. -/
theorem step_search (running : m.cpu.halted = false) (compares : op.compares = true)
    (stands : m.Repeats op w source r length) :
    let c := m.cpu
    let n := c.registers.cx.toNat
    let stops := c.StopsAt w op source r
    ∃ (k : Nat) (f : Flags), m.DealsWith op w length k c.memory f ∧
      ((∃ i < n, stops i ∧ (∀ j < i, ¬stops j) ∧ k = i + 1) ∨ (∀ i < n, ¬stops i) ∧ k = n) ∧
      (k = 0 → f = c.flags) ∧
      (∀ i, k = i + 1 →
        f = comparison c.flags (c.comparedAt w op source i).1 (c.comparedAt w op source i).2) ∧
      (n ≠ 0 → (r.continues f.zero = false ↔ ∃ i < n, stops i)) := by
  intro c n stops
  obtain ⟨k, ends, search⟩ := c.stringElements_search w source r n compares
  have deals := dealsWith_of_repeats running stands (.inr compares) ends
  rw [Cpu.memory_afterElements c compares] at deals
  refine ⟨k, (c.afterElements w op source k).flags, deals, search, ?_, ?_, ?_⟩
  · rintro rfl
    rfl
  · rintro i rfl
    exact c.flags_afterElements_succ compares i
  · intro counted
    obtain ⟨i, below, found, -, rfl⟩ | ⟨none, rfl⟩ := search
    · exact iff_of_true ((c.continues_afterElements compares i).mpr found) ⟨i, below, found⟩
    · obtain ⟨j, last⟩ := Nat.exists_eq_succ_of_ne_zero counted
      refine iff_of_false ?_ ?_
      · rw [last, c.continues_afterElements compares j]
        exact none j (by omega)
      · rintro ⟨i, below, found⟩
        exact none i below found

/-- A search for the second of its own bytes finds it, with three of five elements left. -/
theorem step_search_of_own_opcode :
    let start := booted [0xF2, 0xAE]
    let m := { start with cpu := { start.cpu with
      registers := { start.cpu.registers with ax := 0xAE, cx := 5, es := 0xFFFF } } }
    m.step.1 = .ok .next ∧ m.step.2.cpu.registers.cx = 3 ∧ m.step.2.cpu.registers.di = 2 ∧
      m.step.2.cpu.flags.zero = true := by
  intro start m
  have holds : m.code.Holds ([0xF2] ++ [0xAE]) := code_holds_store (m := m) rfl (by decide)
  have fresh : m.pending = none := rfl
  have running : m.cpu.halted = false := rfl
  have flags : m.cpu.flags = .clear := rfl
  have registers : m.cpu.registers = { ax := 0xAE, cs := 0xFFFF, es := 0xFFFF, cx := 5 } := rfl
  -- From here on only these facts about the machine count, not what its memory is made of.
  clear_value m
  have stands : m.Repeats .scas .byte .ds .whileNotZero 2 := by
    refine ⟨[0xF2], by decide, by decide, holds, ?_, ?_, rfl⟩ <;> rw [fresh] <;> rfl
  have pair (k : Nat) (below : k < 2) :
      m.cpu.comparedAt .byte .scas .ds k = ((0xAE : Byte), m.code k) := by
    have place : m.cpu.address .es (m.cpu.elementAt .byte m.cpu.registers.di k) =
        m.cpu.address .cs (m.cpu.registers.ip + BitVec.ofNat 16 k) := by
      rw [Cpu.address, Cpu.address, Cpu.elementAt, registers, flags]
      obtain rfl | rfl : k = 0 ∨ k = 1 := by omega
      all_goals rfl
    have own : m.cpu.load .byte .es (m.cpu.elementAt .byte m.cpu.registers.di k) = m.code k :=
      congrArg m.cpu.memory.get place
    rw [Cpu.comparedAt, own, Cpu.accumulator, registers]
    rfl
  have passes : ¬m.cpu.StopsAt .byte .scas .ds .whileNotZero 0 := by
    rw [Cpu.StopsAt, pair 0 (by decide), holds 0 (by decide)]
    change ¬(0xAE : Byte) = 0xF2
    decide
  have hit : m.cpu.StopsAt .byte .scas .ds .whileNotZero 1 := by
    rw [Cpu.StopsAt, pair 1 (by decide), holds 1 (by decide)]
    exact rfl
  obtain ⟨k, f, deals, search, -, -, told⟩ := step_search running rfl stands
  have count : m.cpu.registers.cx.toNat = 5 := by rw [registers]; rfl
  rw [count] at search told
  have zero : f.zero = true := by
    have stopped := (told (by decide)).mpr ⟨1, by decide, hit⟩
    rwa [Repetition.continues, Bool.not_eq_false'] at stopped
  obtain rfl : k = 2 := by
    obtain ⟨i, -, stops, before, rfl⟩ | ⟨none, -⟩ := search
    · have : i ≠ 0 := by
        rintro rfl
        exact passes stops
      have : ¬1 < i := fun later => before 1 later hit
      omega
    · exact absurd hit (none 1 (by decide))
  rw [deals]
  refine ⟨rfl, ?_, ?_, zero⟩
  · change m.cpu.registers.cx - 2 = 3
    rw [registers]
    rfl
  · change m.cpu.elementAt .byte m.cpu.registers.di 2 = 2
    rw [Cpu.elementAt, registers, flags]
    rfl

end Machine

end I8086
