import I8086.Proofs.Access

/-!
# The stack

The stack grows downward in its segment and wraps around there. `UnderTop c n a` says that `a` is
one of the `n` bytes below the top of the stack; pushing `n` words changes the `2 * n` bytes there
and no others. As long as no more than a whole segment is in use, no word on the stack is hit
twice, wherever the stack begins and however it wraps, so what has been pushed can be popped.
-/

namespace I8086.Cpu

variable (c : Cpu)

/-- The address belongs to one of the `n` bytes below the top of the stack. -/
def UnderTop (n : Nat) (a : Address) : Prop :=
  ∃ k, 0 < k ∧ k ≤ n ∧ a = c.address .ss (c.registers.sp - BitVec.ofNat 16 k)

variable {c} {n k : Nat} {a : Address}

theorem UnderTop.mono (under : c.UnderTop n a) (le : n ≤ k) : c.UnderTop k a := by
  obtain ⟨i, pos, within, rfl⟩ := under
  exact ⟨i, pos, Nat.le_trans within le, rfl⟩

/-- No byte above the top of the stack is also below it, unless the whole segment is counted. -/
theorem not_underTop (room : n + k < 0x10000) :
    ¬c.UnderTop n (c.address .ss (c.registers.sp + BitVec.ofNat 16 k)) := by
  rintro ⟨i, pos, within, same⟩
  have offset := (c.address_inj).mp same
  have := congrArg BitVec.toNat offset
  simp only [BitVec.toNat_add, BitVec.toNat_sub, BitVec.toNat_ofNat] at this
  omega

/-- Processors with one stack segment agree on a word if they agree on its bytes. -/
theorem readWord_congr {c c' : Cpu} {offset : Word}
    (segment : c'.registers.ss = c.registers.ss)
    (first : c'.memory.get (c.address .ss offset) = c.memory.get (c.address .ss offset))
    (second : c'.memory.get (c.address .ss (offset + 1)) =
      c.memory.get (c.address .ss (offset + 1))) :
    c'.readWord .ss offset = c.readWord .ss offset := by
  have address (x : Word) : c'.address .ss x = c.address .ss x :=
    congrArg (Address.translate · x) segment
  simp only [readWord, readByte, address, first, second]

/-- A word on the stack is not changed by what happens below the top. -/
theorem readWord_of_kept {c c' : Cpu} (segment : c'.registers.ss = c.registers.ss)
    (kept : ∀ a, ¬c.UnderTop n a → c'.memory.get a = c.memory.get a)
    (room : n + k + 1 < 0x10000) :
    c'.readWord .ss (c.registers.sp + BitVec.ofNat 16 k) =
      c.readWord .ss (c.registers.sp + BitVec.ofNat 16 k) := by
  refine readWord_congr segment (kept _ (not_underTop (by omega))) ?_
  rw [BitVec.add_assoc, show (1 : Word) = BitVec.ofNat 16 1 from rfl, ← BitVec.ofNat_add]
  exact kept _ (not_underTop (by omega))

/-! ## Pushing -/

theorem get_push (v : Word) (outside : ¬c.UnderTop 2 a) :
    (c.push v).memory.get a = c.memory.get a := by
  have address (x : Word) : (c.setRegister .sp (c.registers.sp - 2)).address .ss x =
      c.address .ss x := rfl
  rw [push, get_writeWord, address, address, if_neg, if_neg]
  · rfl
  · rintro rfl
    exact outside ⟨2, by decide, by decide, rfl⟩
  · rintro rfl
    refine outside ⟨1, by decide, by decide, congrArg _ ?_⟩
    show c.registers.sp - 2 + 1 = c.registers.sp - 1
    bv_omega

/-- What lies below the top after a push lay there before it, two bytes deeper. -/
theorem UnderTop.of_push {v : Word} (under : (c.push v).UnderTop n a) : c.UnderTop (n + 2) a := by
  obtain ⟨k, pos, within, rfl⟩ := under
  refine ⟨k + 2, by omega, by omega, ?_⟩
  have offset : c.registers.sp - 2 - BitVec.ofNat 16 k =
      c.registers.sp - BitVec.ofNat 16 (k + 2) := by
    rw [BitVec.ofNat_add]
    bv_omega
  exact congrArg (c.address .ss) offset

/-- Pushes words one after the other. -/
def pushAll (c : Cpu) (words : List Word) : Cpu := words.foldl push c

@[simp] theorem pushAll_nil : c.pushAll [] = c := rfl

@[simp] theorem pushAll_cons (v : Word) (words : List Word) :
    c.pushAll (v :: words) = (c.push v).pushAll words := rfl

/-- Pushing words moves SP down by two for each of them and changes no other register. -/
theorem registers_pushAll (words : List Word) :
    (c.pushAll words).registers =
      { c.registers with sp := c.registers.sp - BitVec.ofNat 16 (2 * words.length) } := by
  induction words generalizing c with
  | nil =>
      have none : c.registers.sp - BitVec.ofNat 16 (2 * 0) = c.registers.sp := BitVec.sub_zero _
      rw [pushAll_nil, List.length_nil, none]
  | cons v words ih =>
      have sum : c.registers.sp - 2 - BitVec.ofNat 16 (2 * words.length) =
          c.registers.sp - BitVec.ofNat 16 (2 * (words.length + 1)) := by
        rw [Nat.mul_succ, BitVec.ofNat_add]
        bv_omega
      rw [pushAll_cons, ih, List.length_cons, ← sum]
      rfl

@[simp] theorem halted_pushAll (words : List Word) : (c.pushAll words).halted = c.halted := by
  induction words generalizing c with
  | nil => rfl
  | cons v words ih => exact ih

theorem get_pushAll {words : List Word} (outside : ¬c.UnderTop (2 * words.length) a) :
    (c.pushAll words).memory.get a = c.memory.get a := by
  induction words generalizing c with
  | nil => rfl
  | cons v words ih =>
      rw [List.length_cons, Nat.mul_succ] at outside
      rw [pushAll_cons, ih fun under => outside under.of_push]
      exact get_push v fun under => outside (under.mono (by omega))

/-- The pushed words are found below where the top was, the first one next to it, if they fit into
the segment. -/
theorem readWord_pushAll {words : List Word} {i : Nat} (h : i < words.length)
    (room : 2 * words.length ≤ 0x10000) :
    (c.pushAll words).readWord .ss (c.registers.sp - BitVec.ofNat 16 (2 * (i + 1))) = words[i] := by
  induction words generalizing c i with
  | nil => exact absurd h (Nat.not_lt_zero i)
  | cons v words ih =>
      rw [List.length_cons] at room
      cases i with
      | zero =>
          have segment : ((c.push v).pushAll words).registers.ss = (c.push v).registers.ss := by
            rw [registers_pushAll]
          have kept := readWord_of_kept (k := 0) segment (fun a outside => get_pushAll outside)
            (by omega)
          have top : (c.push v).registers.sp + BitVec.ofNat 16 0 = c.registers.sp - 2 :=
            BitVec.add_zero _
          rw [top] at kept
          exact kept.trans (readWord_push c v)
      | succ i =>
          have below := ih (c := c.push v) (Nat.lt_of_succ_lt_succ h) (by omega)
          have offset : (c.push v).registers.sp - BitVec.ofNat 16 (2 * (i + 1)) =
              c.registers.sp - BitVec.ofNat 16 (2 * (i + 1 + 1)) := by
            rw [sp_push, Nat.mul_succ 2 (i + 1), BitVec.ofNat_add]
            bv_omega
          rw [offset] at below
          exact below

end I8086.Cpu

namespace I8086

/-! ## Frames -/

/-- What a control transfer leaves on the stack for the way back. -/
inductive Frame where
  /-- The offset of the successor. -/
  | near
  /-- Segment and offset of the successor. -/
  | far
  /-- The flags, and segment and offset of the successor. -/
  | interrupt

namespace Frame

/-- The words of a frame, in the order in which they are pushed. -/
def words (c : Cpu) : Frame → List Word
  | near => [c.registers.ip]
  | far => [c.registers.cs, c.registers.ip]
  | interrupt => [c.flags.pushed, c.registers.cs, c.registers.ip]

/-- The number of bytes that a frame takes. -/
def size : Frame → Nat
  | near => 2
  | far => 4
  | interrupt => 6

/-- The flags that a routine starts with: no interrupts and no trap in an interrupt's routine. -/
def flags (f : Flags) : Frame → Flags
  | interrupt => { f with interrupt := false, trap := false }
  | near | far => f

theorem length_words (frame : Frame) (c : Cpu) : 2 * (frame.words c).length = frame.size := by
  cases frame <;> rfl

theorem size_le (frame : Frame) : frame.size ≤ 6 := by
  cases frame <;> decide

end Frame

namespace Cpu

variable (c : Cpu) (frame : Frame) (cs ip : Word)

/-- Leaves a frame on the stack and continues elsewhere. -/
def enter : Cpu :=
  { c.pushAll (frame.words c) with flags := frame.flags c.flags }.jumpFar cs ip

theorem call_eq_enter : c.call ip = c.enter .near c.registers.cs ip := rfl

theorem callFar_eq_enter : c.callFar cs ip = c.enter .far cs ip := rfl

theorem enterInterrupt_eq_enter : c.enterInterrupt cs ip = c.enter .interrupt cs ip := rfl

theorem registers_enter :
    (c.enter frame cs ip).registers =
      { c.registers with
        sp := c.registers.sp - BitVec.ofNat 16 frame.size
        cs := cs
        ip := ip } := by
  have pushed := registers_pushAll (c := c) (frame.words c)
  rw [frame.length_words] at pushed
  show { (c.pushAll (frame.words c)).registers with cs, ip } = _
  rw [pushed]

@[simp] theorem flags_enter : (c.enter frame cs ip).flags = frame.flags c.flags := rfl

@[simp] theorem halted_enter : (c.enter frame cs ip).halted = c.halted := halted_pushAll _

variable {c cs ip}

theorem get_enter {a : Address} (outside : ¬c.UnderTop frame.size a) :
    (c.enter frame cs ip).memory.get a = c.memory.get a :=
  get_pushAll (by rwa [frame.length_words])

/-- The words of a frame are found below where the top was. -/
theorem readWord_enter {i : Nat} (h : i < (frame.words c).length) :
    (c.enter frame cs ip).readWord .ss (c.registers.sp - BitVec.ofNat 16 (2 * (i + 1))) =
      (frame.words c)[i] := by
  have size := frame.size_le
  exact readWord_pushAll h (by rw [frame.length_words]; omega)

end Cpu

end I8086
