import I8086.Proofs.Confinement
import I8086.Proofs.Repetition

/-!
# Copying and filling

Repeated `MOVS` copies a block of memory and repeated `STOS` fills one, element by element. A copy
whose blocks overlap is still one of the whole block, as it was before, if it runs in the direction
that reads every byte before that byte is replaced. The invariant is an interval of the destination:
what the first `k` elements have filled is a copy, and everything else is as it was. A fill may wrap
at the end of its segment and pass over itself, since an offset always gets the same byte.
-/

namespace I8086

/-- A byte of a value, the low one first. -/
def Width.byteOf : (w : Width) → w.Value → Nat → Byte
  | .byte, v, _ => v
  | .word, v, 0 => Word.low v
  | .word, v, _ + 1 => Word.high v

/-- No operation both stores and compares. -/
theorem StringOp.compares_of_stores {op : StringOp} (stores : op.stores = true) :
    op.compares = false := by
  cases op with
  | movs | stos => rfl
  | cmps | lods | scas => cases stores

namespace Cpu

variable (c : Cpu) {w : Width} {s : Segment} {offset : Word} {j : Nat}

/-! ## The bytes of an element -/

theorem byteOf_load (inside : j < w.bytes) :
    w.byteOf (c.load w s offset) j = c.memory.get (c.address s (offset + BitVec.ofNat 16 j)) := by
  have first : offset + BitVec.ofNat 16 0 = offset := BitVec.add_zero offset
  match w, j with
  | .byte, 0 =>
      rw [first]
      rfl
  | .word, 0 =>
      rw [first]
      exact Word.low_ofBytes _ _
  | .word, 1 => exact Word.high_ofBytes _ _

theorem get_store_byteOf {v : w.Value} (inside : j < w.bytes) :
    (c.store w s offset v).memory.get (c.address s (offset + BitVec.ofNat 16 j)) =
      w.byteOf v j := by
  have first : offset + BitVec.ofNat 16 0 = offset := BitVec.add_zero offset
  match w, j with
  | .byte, 0 =>
      rw [first]
      exact Memory.get_set_self _ _ _
  | .word, 0 =>
      rw [first]
      change (c.writeWord s offset v).memory.get _ = _
      rw [get_writeWord, if_neg (c.address_succ_ne s offset).symm, if_pos rfl]
      rfl
  | .word, 1 =>
      change (c.writeWord s offset v).memory.get (c.address s (offset + 1)) = _
      rw [get_writeWord, if_pos rfl]
      rfl

/-- AL and AH take turns, AL first. -/
def fillByte (c : Cpu) (w : Width) (distance : Nat) : Byte :=
  if w = .word ∧ distance % 2 = 1 then c.registers.high .ax else c.registers.low .ax

theorem byteOf_accumulator (inside : j < w.bytes) :
    w.byteOf (c.accumulator w) j = c.fillByte w j := by
  match w, j with
  | .byte, 0 => rfl
  | .word, 0 => rfl
  | .word, 1 => rfl

/-! ## One more element -/

variable {source : Segment} {op : StringOp} {start : Word} {n k : Nat} {a : Address}

/-- The elements are one after the other. -/
theorem inElements_succ_iff :
    c.InElements w s start (k + 1) a ↔
      c.InElements w s start k a ∨ c.Within s (c.elementAt w start k) w.bytes a := by
  rw [elementAt_eq]
  constructor
  · rintro ⟨i, below, inside⟩
    obtain earlier | rfl := Nat.lt_succ_iff_lt_or_eq.mp below
    · exact .inl ⟨i, earlier, inside⟩
    · exact .inr inside
  · rintro (⟨i, below, inside⟩ | inside)
    · exact ⟨i, Nat.lt_succ_of_lt below, inside⟩
    · exact ⟨k, Nat.lt_succ_self k, inside⟩

/-- What is stored as the element that comes next. -/
def storedElement (c : Cpu) (w : Width) (op : StringOp) (source : Segment) : w.Value :=
  if op.loads then c.load w source c.registers.si else c.accumulator w

theorem memory_countedElement (stores : op.stores = true) :
    (c.countedElement w op source).memory =
      (c.store w .es c.registers.di (c.storedElement w op source)).memory := by
  cases op with
  | movs | stos => cases w <;> rfl
  | cmps | lods | scas => cases stores

theorem get_afterElements_succ (w : Width) (source : Segment) (k : Nat)
    (stores : op.stores = true) :
    (∀ j < w.bytes,
      (c.afterElements w op source (k + 1)).memory.get
          (c.address .es (c.elementAt w c.registers.di k + BitVec.ofNat 16 j)) =
        w.byteOf ((c.afterElements w op source k).storedElement w op source) j) ∧
    (∀ a, ¬c.Within .es (c.elementAt w c.registers.di k) w.bytes a →
      (c.afterElements w op source (k + 1)).memory.get a =
        (c.afterElements w op source k).memory.get a) := by
  have address := c.address_afterElements w source (.inl stores) k .es
  have di : (c.afterElements w op source k).registers.di = c.elementAt w c.registers.di k := by
    rw [registers_afterElements c w source (.inl stores)]
  rw [afterElements_succ, memory_countedElement _ stores, di]
  refine ⟨fun j inside => ?_, fun a outside => get_store ?_⟩
  · rw [← address]
    exact get_store_byteOf _ inside
  · rintro ⟨j, inside, rfl⟩
    exact outside ⟨j, inside, address _⟩

/-- Elements that the instruction does not reach are not stored to. -/
theorem get_afterElements (stores : op.stores = true)
    (outside : ¬c.InElements w .es c.registers.di k a) :
    (c.afterElements w op source k).memory.get a = c.memory.get a := by
  rw [← stringElements_of_stores c (r := .whileZero) (StringOp.compares_of_stores stores)]
  exact get_stringElements fun ⟨_, inside⟩ => outside inside

/-- Transfers have nothing to do with flags. -/
theorem flags_afterElements (plain : op.compares = false) (k : Nat) :
    (c.afterElements w op source k).flags = c.flags := by
  induction k with
  | zero => rfl
  | succ k ih =>
      rw [afterElements_succ, ← ih]
      cases op with
      | movs | stos | lods => cases w <;> rfl
      | cmps | scas => cases plain

/-! ## Filling -/

/-- The bytes of an element go on with the turns of AL and AH. -/
theorem fillByte_distance (start : Word) (k : Nat) (inside : j < w.bytes) :
    c.fillByte w (c.elementAt w start k + BitVec.ofNat 16 j - start).toNat = c.fillByte w j := by
  cases w with
  | byte => simp only [fillByte, reduceCtorEq, false_and, if_false]
  | word =>
      have parity : (c.elementAt .word start k + BitVec.ofNat 16 j - start).toNat % 2 = j % 2 := by
        rw [elementAt, Width.bytes]
        split <;> bv_omega
      simp only [fillByte, parity]

theorem get_fill {o : Word} (covered : c.InElements w .es c.registers.di k (c.address .es o)) :
    (c.afterElements w .stos source k).memory.get (c.address .es o) =
      c.fillByte w (o - c.registers.di).toNat := by
  induction k with
  | zero =>
      obtain ⟨_, below, _⟩ := covered
      exact absurd below (Nat.not_lt_zero _)
  | succ k ih =>
      obtain ⟨last, kept⟩ :=
        c.get_afterElements_succ w source k (show StringOp.stos.stores = true from rfl)
      -- A fill that has gone round its segment comes back to offsets that it has filled before.
      by_cases inside : c.Within .es (c.elementAt w c.registers.di k) w.bytes (c.address .es o)
      · obtain ⟨j, inside, same⟩ := inside
        obtain rfl := address_inj c |>.mp same
        have accumulator : (c.afterElements w .stos source k).storedElement w .stos source =
            c.accumulator w := by
          change (c.afterElements w .stos source k).registers.read w .accumulator = _
          rw [registers_afterElements c w source (.inl rfl)]
          cases w <;> rfl
        rw [last j inside, accumulator, byteOf_accumulator _ inside, fillByte_distance _ _ _ inside]
      · rw [kept _ inside]
        exact ih (((c.inElements_succ_iff).mp covered).resolve_right inside)

/-! ## Blocks -/

/-- The elements of a string occupy the consecutive bytes of memory from the address `base` on. No
offset wraps on the way from the first element to the last, and neither does an address. -/
structure Block (c : Cpu) (w : Width) (s : Segment) (start : Word) (n base : Nat) : Prop where
  /-- The first element is the highest one if the string goes down, and otherwise the lowest. -/
  first : (c.address s start).toNat =
    if c.flags.direction then base + n * w.bytes - w.bytes else base
  inSegment : if c.flags.direction then n * w.bytes ≤ start.toNat + w.bytes ∧
      start.toNat + w.bytes ≤ 0x10000
    else start.toNat + n * w.bytes ≤ 0x10000
  inMemory : base + n * w.bytes ≤ memorySize

/-- The distance of the element with a number from the base of its block. -/
def elementDistance (c : Cpu) (w : Width) (n k : Nat) : Nat :=
  (if c.flags.direction then n - 1 - k else k) * w.bytes

theorem Block.toNat_address {base : Nat} (block : c.Block w s start n base) (below : k < n)
    (inside : j < w.bytes) :
    (c.address s (c.elementAt w start k + BitVec.ofNat 16 j)).toNat =
      base + c.elementDistance w n k + j := by
  obtain ⟨first, inSegment, inMemory⟩ := block
  have := start.isLt
  rw [address, Address.toNat_translate] at *
  rw [elementAt, elementDistance]
  cases w <;> cases direction : c.flags.direction <;>
    simp only [direction, Width.bytes, memorySize, if_true, if_false, Bool.false_eq_true,
      BitVec.toNat_add, BitVec.toNat_sub, BitVec.toNat_ofNat] at * <;>
    omega

/-! ## Copying -/

/-- The distances from the base of a block of `n` elements that the first `k` of them take up. -/
def Filled (c : Cpu) (w : Width) (n k t : Nat) : Prop :=
  if c.flags.direction then (n - k) * w.bytes ≤ t ∧ t < n * w.bytes else t < k * w.bytes

theorem filled_succ_iff (below : k < n) {t : Nat} :
    c.Filled w n (k + 1) t ↔
      c.Filled w n k t ∨ ∃ j < w.bytes, t = c.elementDistance w n k + j := by
  have bounds : c.Filled w n (k + 1) t ↔ c.Filled w n k t ∨
      c.elementDistance w n k ≤ t ∧ t < c.elementDistance w n k + w.bytes := by
    rw [Filled, Filled, elementDistance]
    cases w <;> cases c.flags.direction <;>
      simp only [Width.bytes, if_true, if_false, Bool.false_eq_true] <;>
      omega
  rw [bounds]
  refine or_congr_right ⟨?_, ?_⟩
  · rintro ⟨low, high⟩
    exact ⟨t - c.elementDistance w n k, by omega, by omega⟩
  · rintro ⟨j, inside, rfl⟩
    omega

theorem filled_self_iff {t : Nat} : c.Filled w n n t ↔ t < n * w.bytes := by
  rw [Filled]
  split
  · rw [Nat.sub_self, Nat.zero_mul]
    exact and_iff_right (Nat.zero_le t)
  · exact Iff.rfl

theorem lt_of_filled {t : Nat} (reached : k ≤ n) (filled : c.Filled w n k t) :
    t < n * w.bytes := by
  rw [Filled] at filled
  split at filled
  · exact filled.2
  · exact Nat.lt_of_lt_of_le filled (Nat.mul_le_mul_right w.bytes reached)

/-- A copy of `n` elements from the bytes at `S` to those at `D` reads no byte that it has already
replaced: the two blocks are disjoint, or it goes up and not to a higher place, or down and not to a
lower one. -/
def CopiesWhole (c : Cpu) (w : Width) (n S D : Nat) : Prop :=
  S + n * w.bytes ≤ D ∨ D + n * w.bytes ≤ S ∨
    c.flags.direction = false ∧ D ≤ S ∨ c.flags.direction = true ∧ S ≤ D

variable {S D : Nat}

theorem CopiesWhole.unread (whole : c.CopiesWhole w n S D) (below : k < n) (inside : j < w.bytes)
    {t : Nat} (filled : c.Filled w n k t) : S + c.elementDistance w n k + j ≠ D + t := by
  rw [CopiesWhole] at whole
  rw [Filled] at filled
  rw [elementDistance]
  cases w <;> cases direction : c.flags.direction <;>
    simp only [direction, Width.bytes, if_true, if_false, Bool.false_eq_true, reduceCtorEq,
      false_and, true_and, false_or, or_false] at * <;>
    omega

/-- What the first `k` elements take up is a copy of what the source held, and the rest of memory is
as it was. -/
structure Copied (c : Cpu) (w : Width) (n S D k : Nat) (after : Memory) : Prop where
  copied : ∀ t, c.Filled w n k t →
    after.get (BitVec.ofNat 20 (D + t)) = c.memory.get (BitVec.ofNat 20 (S + t))
  frame : ∀ a : Address, (∀ t, c.Filled w n k t → a.toNat ≠ D + t) →
    after.get a = c.memory.get a

/-- The address in a block by its distance from the base. -/
theorem Block.address_eq {base : Nat} (block : c.Block w s start n base) (below : k < n)
    (inside : j < w.bytes) :
    c.address s (c.elementAt w start k + BitVec.ofNat 16 j) =
      BitVec.ofNat 20 (base + (c.elementDistance w n k + j)) := by
  rw [← Nat.add_assoc, ← block.toNat_address c below inside, BitVec.ofNat_toNat, BitVec.setWidth_eq]

theorem storedElement_movs (inside : j < w.bytes) :
    w.byteOf ((c.afterElements w .movs source k).storedElement w .movs source) j =
      (c.afterElements w .movs source k).memory.get
        (c.address source (c.elementAt w c.registers.si k + BitVec.ofNat 16 j)) := by
  have si : (c.afterElements w .movs source k).registers.si = c.elementAt w c.registers.si k := by
    rw [registers_afterElements c w source (.inl rfl)]
    rfl
  have stored : (c.afterElements w .movs source k).storedElement w .movs source =
      (c.afterElements w .movs source k).load w source (c.elementAt w c.registers.si k) := by
    rw [← si]
    rfl
  rw [stored, byteOf_load _ inside, c.address_afterElements w source (.inl rfl)]

/-- The induction is on the elements. An element that comes next has not been replaced by those
before it, so it is copied as the source held it. -/
theorem copied_afterElements (whole : c.CopiesWhole w n S D)
    (sourceBlock : c.Block w source c.registers.si n S)
    (targetBlock : c.Block w .es c.registers.di n D) (reached : k ≤ n) :
    c.Copied w n S D k (c.afterElements w .movs source k).memory := by
  induction k with
  | zero =>
      refine ⟨fun t filled => ?_, fun a _ => rfl⟩
      have nothing : ¬c.Filled w n 0 t := by
        rw [Filled, Nat.sub_zero, Nat.zero_mul]
        split <;> omega
      exact absurd filled nothing
  | succ k ih =>
      have below : k < n := reached
      have ih := ih (Nat.le_of_lt below)
      obtain ⟨last, kept⟩ :=
        c.get_afterElements_succ w source k (show StringOp.movs.stores = true from rfl)
      constructor
      · intro t filled
        -- The element that comes next, or one of those before it.
        by_cases here : ∃ j < w.bytes, t = c.elementDistance w n k + j
        · obtain ⟨j, inside, rfl⟩ := here
          rw [← targetBlock.address_eq c below inside, last j inside,
            storedElement_movs c inside, ← sourceBlock.address_eq c below inside]
          refine ih.frame _ ?_
          intro t filled
          rw [sourceBlock.toNat_address c below inside]
          exact whole.unread c below inside filled
        · have earlier := ((c.filled_succ_iff below).mp filled).resolve_right here
          rw [kept, ih.copied t earlier]
          rintro ⟨j, inside, same⟩
          refine here ⟨j, inside, ?_⟩
          have place := targetBlock.toNat_address c below inside
          rw [← same, BitVec.toNat_ofNat] at place
          have := c.lt_of_filled reached filled
          have := targetBlock.inMemory
          rw [memorySize] at this
          omega
      · intro a outside
        rw [kept]
        · refine ih.frame a ?_
          intro t filled
          exact outside t ((c.filled_succ_iff below).mpr (.inl filled))
        · rintro ⟨j, inside, rfl⟩
          refine outside _ ((c.filled_succ_iff below).mpr (.inr ⟨j, inside, rfl⟩)) ?_
          rw [targetBlock.toNat_address c below inside, Nat.add_assoc]

end Cpu

/-! ## A step -/

namespace Machine

variable {World : Type} {m : Machine World} {w : Width} {source : Segment} {r : Repetition}
  {length : Nat}

/-- A repeated transfer deals with all elements that CX counts. -/
theorem dealsWith_of_stores {op : StringOp} (running : m.cpu.halted = false)
    (stands : m.Repeats op w source r length) (stores : op.stores = true) :
    m.DealsWith op w length m.cpu.registers.cx.toNat
      (m.cpu.afterElements w op source m.cpu.registers.cx.toNat).memory m.cpu.flags := by
  have plain := StringOp.compares_of_stores stores
  have deals := dealsWith_of_repeats running stands (.inl stores)
    (Cpu.stringElements_of_stores m.cpu plain)
  rwa [Cpu.flags_afterElements m.cpu plain] at deals

/-- CX counts down to zero. -/
theorem DealsWith.cx_eq_zero {op : StringOp} {memory : Memory} {f : Flags}
    (deals : m.DealsWith op w length m.cpu.registers.cx.toNat memory f) :
    m.step.2.cpu.registers.cx = 0 := by
  rw [deals]
  change m.cpu.registers.cx - BitVec.ofNat 16 m.cpu.registers.cx.toNat = 0
  rw [BitVec.ofNat_toNat, BitVec.setWidth_eq]
  exact BitVec.sub_self _

/-- Repeated `MOVS` and `STOS`, of bytes or words, in either direction, under either repeat prefix
and for every count, in one step. Both leave CX at zero, DI, for a copy also SI, behind the last
element, every flag and every other register but IP as it was, and of memory everything that lies
outside the elements of the destination. A copy of a block that does not wrap leaves there the bytes
that the source held before the step, if the blocks are disjoint or it runs in the direction that
reads them in time. A fill leaves AL, or AL and AH by turns, wherever its elements lie and however
they wrap. -/
theorem step_block_transfer (running : m.cpu.halted = false) (w : Width) (source : Segment)
    (r : Repetition) (length : Nat) :
    let c := m.cpu
    let n := c.registers.cx.toNat
    let si := c.registers.si
    let di := c.registers.di
    (m.Repeats .movs w source r length →
      ∃ after : Memory, m.DealsWith .movs w length n after c.flags ∧
        m.step.2.cpu.registers.cx = 0 ∧
        (∀ a, ¬c.InElements w .es di n a → after.get a = c.memory.get a) ∧
        ∀ S D : Nat, c.Block w source si n S → c.Block w .es di n D → c.CopiesWhole w n S D →
          (∀ t < n * w.bytes,
            after.get (BitVec.ofNat 20 (D + t)) = c.memory.get (BitVec.ofNat 20 (S + t))) ∧
          ∀ a : Address, a.toNat < D ∨ D + n * w.bytes ≤ a.toNat →
            after.get a = c.memory.get a) ∧
    (m.Repeats .stos w source r length →
      ∃ after : Memory, m.DealsWith .stos w length n after c.flags ∧
        m.step.2.cpu.registers.cx = 0 ∧
        (∀ a, ¬c.InElements w .es di n a → after.get a = c.memory.get a) ∧
        ∀ offset, c.InElements w .es di n (c.address .es offset) →
          after.get (c.address .es offset) = c.fillByte w (offset - di).toNat) := by
  intro c n si di
  constructor
  · intro stands
    have deals := dealsWith_of_stores running stands rfl
    refine ⟨_, deals, deals.cx_eq_zero, ?_, ?_⟩
    · intro a outside
      exact c.get_afterElements rfl outside
    · intro S D sourceBlock targetBlock whole
      obtain ⟨copied, frame⟩ :=
        c.copied_afterElements whole sourceBlock targetBlock (Nat.le_refl n)
      constructor
      · intro t inside
        exact copied t (c.filled_self_iff.mpr inside)
      · intro a outside
        refine frame a ?_
        intro t filled
        have := c.filled_self_iff.mp filled
        omega
  · intro stands
    have deals := dealsWith_of_stores running stands rfl
    refine ⟨_, deals, deals.cx_eq_zero, ?_, ?_⟩
    · intro a outside
      exact c.get_afterElements rfl outside
    · intro offset covered
      exact c.get_fill covered

/-- A copy of bytes in the code segment, on to itself and one byte up, begins at its end: the three
bytes of the instruction move, and none is lost. -/
theorem step_block_transfer_of_moving_itself :
    let start := booted [0x2E, 0xF3, 0xA4]
    let m := { start with cpu := { start.cpu with
      flags.direction := true
      registers := { start.cpu.registers with cx := 3, si := 2, di := 3, es := 0xFFFF } } }
    m.step.1 = .ok .next ∧ m.step.2.cpu.registers.di = 0 ∧
      m.step.2.cpu.memory.get 0xFFFF1 = 0x2E ∧ m.step.2.cpu.memory.get 0xFFFF2 = 0xF3 ∧
      m.step.2.cpu.memory.get 0xFFFF3 = 0xA4 := by
  intro start m
  have holds : m.code.Holds ([0x2E, 0xF3] ++ [0xA4]) := code_holds_store (m := m) rfl (by decide)
  have fresh : m.pending = none := rfl
  have running : m.cpu.halted = false := rfl
  have direction : m.cpu.flags.direction = true := rfl
  have registers : m.cpu.registers =
      { cs := 0xFFFF, es := 0xFFFF, cx := 3, si := 2, di := 3 } := rfl
  -- From here on only these facts about the machine count, not what its memory is made of.
  clear_value m
  have stands : m.Repeats .movs .byte .cs .whileZero 3 := by
    refine ⟨[0x2E, 0xF3], by decide, by decide, holds, ?_, ?_, rfl⟩ <;> rw [fresh] <;> rfl
  obtain ⟨after, deals, -, -, copies⟩ :=
    (step_block_transfer running .byte .cs .whileZero 3).1 stands
  have sourceBlock : m.cpu.Block .byte .cs m.cpu.registers.si m.cpu.registers.cx.toNat 0xFFFF0 := by
    constructor <;> simp only [Cpu.address, direction, registers] <;> decide
  have targetBlock : m.cpu.Block .byte .es m.cpu.registers.di m.cpu.registers.cx.toNat 0xFFFF1 := by
    constructor <;> simp only [Cpu.address, direction, registers] <;> decide
  obtain ⟨copied, -⟩ :=
    copies _ _ sourceBlock targetBlock (.inr (.inr (.inr ⟨direction, by decide⟩)))
  have code (k : Nat) (inside : k < 3) :
      m.cpu.memory.get (BitVec.ofNat 20 (0xFFFF0 + k)) = m.code k := by
    have place : m.cpu.address .cs (m.cpu.registers.ip + BitVec.ofNat 16 k) =
        BitVec.ofNat 20 (0xFFFF0 + k) := by
      rw [Cpu.address, registers]
      obtain rfl | rfl | rfl : k = 0 ∨ k = 1 ∨ k = 2 := by omega
      all_goals rfl
    rw [← place]
    rfl
  have moved (k : Nat) (inside : k < 3) :
      after.get (BitVec.ofNat 20 (0xFFFF1 + k)) = ([0x2E, 0xF3] ++ [0xA4] : List Byte)[k] := by
    have count : m.cpu.registers.cx.toNat * Width.byte.bytes = 3 := by rw [registers]; rfl
    rw [copied k (count.symm ▸ inside), code k inside]
    exact holds k inside
  rw [deals]
  refine ⟨rfl, ?_, moved 0 (by decide), moved 1 (by decide), moved 2 (by decide)⟩
  change m.cpu.elementAt .byte m.cpu.registers.di m.cpu.registers.cx.toNat = 0
  rw [Cpu.elementAt, direction, registers]
  rfl

end Machine

end I8086
