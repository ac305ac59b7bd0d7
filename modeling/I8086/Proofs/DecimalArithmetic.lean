import I8086.Proofs.LongArithmetic

/-!
# Decimal numbers

The processor adds and subtracts bytes in binary and then corrects the result to decimal digits. A
byte holds two of them or, unpacked, one. What the correction finds out from AL, AF and CF is
whether the low digit carries in decimal, and with that whether the high digit does. So each pair of
instructions is exact on its digits, and chains of them are on numbers of any length.
-/

namespace I8086

/-! ## Digits in bytes -/

namespace Byte

/-- Both halves of the byte are decimal digits. -/
def IsPacked (b : Byte) : Prop := b.toNat / 16 < 10 ∧ b.toNat % 16 < 10

/-- The byte is a decimal digit. -/
def IsDigit (b : Byte) : Prop := b.toNat < 10

instance (b : Byte) : Decidable b.IsPacked := inferInstanceAs (Decidable (_ ∧ _))

instance (b : Byte) : Decidable b.IsDigit := inferInstanceAs (Decidable (_ < _))

/-- The number below 100 that the two digits of a byte make up. -/
def packed (b : Byte) : Nat := 10 * (b.toNat / 16) + b.toNat % 16

end Byte

namespace Decimal

section Correction

variable (al : Byte) (ax : Word) (f : Flags)

theorem toNat_and_low (b : Byte) : (b &&& 0x0F).toNat = b.toNat % 16 := by
  rw [BitVec.toNat_and]
  exact Nat.and_two_pow_sub_one_eq_mod b.toNat 4

theorem adjustsLow_iff : adjustsLow al f = true ↔ f.aux = true ∨ 10 ≤ al.toNat % 16 := by
  rw [adjustsLow, Bool.or_eq_true, decide_eq_true_eq, toNat_and_low]

theorem adjustsHigh_iff :
    adjustsHigh al f = true ↔
      f.carry = true ∨ (f.aux = true ∧ 0x9F < al.toNat) ∨ (f.aux = false ∧ 0x99 < al.toNat) := by
  rw [adjustsHigh, Bool.or_eq_true, decide_eq_true_eq]
  cases f.aux <;> simp

theorem toNat_packedAdd :
    (packedAdd al f).1.toNat =
      (al.toNat + 6 * (adjustsLow al f).toNat + 96 * (adjustsHigh al f).toNat) % 256 := by
  have bound := al.isLt
  rw [packedAdd]
  cases adjustsLow al f <;> cases adjustsHigh al f <;> simp [BitVec.toNat_add]
  omega

theorem toNat_packedSub :
    ((packedSub al f).1.toNat + 6 * (adjustsLow al f).toNat + 96 * (adjustsHigh al f).toNat) % 256 =
      al.toNat := by
  have bound := al.isLt
  rw [packedSub]
  cases adjustsLow al f <;> cases adjustsHigh al f <;> simp [BitVec.toNat_sub]
  all_goals omega

theorem toNat_unpackedAdd :
    (unpackedAdd ax f).1.low.toNat = (ax.low.toNat + 6 * (adjustsLow ax.low f).toNat) % 16 := by
  rw [unpackedAdd, Word.low_ofBytes, toNat_and_low]
  cases adjustsLow ax.low f <;> simp [BitVec.toNat_add]

theorem toNat_unpackedSub :
    (unpackedSub ax f).1.low.toNat = (ax.low.toNat + 10 * (adjustsLow ax.low f).toNat) % 16 := by
  rw [unpackedSub, Word.low_ofBytes, toNat_and_low]
  cases adjustsLow ax.low f <;> simp [BitVec.toNat_sub]
  omega

theorem high_unpackedAdd :
    (unpackedAdd ax f).1.high = if (unpackedAdd ax f).2.carry then ax.high + 1 else ax.high :=
  Word.high_ofBytes _ _

theorem high_unpackedSub :
    (unpackedSub ax f).1.high = if (unpackedSub ax f).2.carry then ax.high - 1 else ax.high :=
  Word.high_ofBytes _ _

end Correction

/-! ## Which digits are corrected -/

section Sums

variable {x y al : Byte} {f g : Flags}

/-- What is left of a binary addition of bytes: the low byte of the sum, its carry, and AF for that
of the low digits. -/
theorem sum_of_adc (added : AluOp.adc.apply f x y = (al, g)) :
    al.toNat + 256 * g.carry.toNat = x.toNat + y.toNat + f.carry.toNat ∧
      (g.aux = true ↔ 16 ≤ x.toNat % 16 + y.toNat % 16 + f.carry.toNat) := by
  have total := Sum.toNat_add x y f.carry
  have aux := Sum.auxCarry_add_iff x y f.carry (by decide)
  rw [Prod.ext_iff] at added
  obtain ⟨rfl, rfl⟩ := added
  refine ⟨total, aux.trans ?_⟩
  rw [IsUnsigned]
  omega

/-- What is left of a binary subtraction. -/
theorem difference_of_sbb (subtracted : AluOp.sbb.apply f x y = (al, g)) :
    al.toNat + y.toNat + f.carry.toNat = x.toNat + 256 * g.carry.toNat ∧
      (g.aux = true ↔ x.toNat % 16 < y.toNat % 16 + f.carry.toNat) := by
  have total := Sum.toNat_sub x y f.carry
  have aux := Sum.auxCarry_sub_iff x y f.carry (by decide)
  rw [Prod.ext_iff] at subtracted
  obtain ⟨rfl, rfl⟩ := subtracted
  refine ⟨total, aux.trans ?_⟩
  rw [IsUnsigned]
  omega

/-- After an addition the low digit is corrected if in decimal it carries: it shows as no digit, or
it has gone on to the next sixteen, and then AF is set. -/
theorem adjustsLow_adc_iff (added : AluOp.adc.apply f x y = (al, g)) (hx : x.toNat % 16 < 10)
    (hy : y.toNat % 16 < 10) :
    adjustsLow al g = true ↔ 10 ≤ x.toNat % 16 + y.toNat % 16 + f.carry.toNat := by
  have carry := f.carry.toNat_le
  obtain ⟨total, aux⟩ := sum_of_adc added
  rw [adjustsLow_iff, aux]
  omega

/-- After a subtraction the low digit is corrected if it borrows. -/
theorem adjustsLow_sbb_iff (subtracted : AluOp.sbb.apply f x y = (al, g))
    (hx : x.toNat % 16 < 10) (hy : y.toNat % 16 < 10) :
    adjustsLow al g = true ↔ x.toNat % 16 < y.toNat % 16 + f.carry.toNat := by
  have carry := f.carry.toNat_le
  obtain ⟨total, aux⟩ := difference_of_sbb subtracted
  rw [adjustsLow_iff, aux]
  omega

/-- The high digit is corrected if with the carry of the low one it carries. -/
theorem adjustsHigh_adc_iff (added : AluOp.adc.apply f x y = (al, g)) (hx : x.IsPacked)
    (hy : y.IsPacked) :
    adjustsHigh al g = true ↔ 10 ≤ x.toNat / 16 + y.toNat / 16 + (adjustsLow al g).toNat := by
  have low := adjustsLow_adc_iff added hx.2 hy.2
  obtain ⟨total, aux⟩ := sum_of_adc added
  obtain ⟨hx, hx'⟩ := hx
  obtain ⟨hy, hy'⟩ := hy
  rw [adjustsHigh_iff]
  -- With the flags as numbers only linear arithmetic is left.
  simp only [← Bool.toNat_eq_one, ← Bool.toNat_eq_zero] at low aux ⊢
  have := f.carry.toNat_le
  have := g.carry.toNat_le
  have := g.aux.toNat_le
  have := (adjustsLow al g).toNat_le
  omega

/-- The high digit is corrected if with the borrow of the low one it borrows. -/
theorem adjustsHigh_sbb_iff (subtracted : AluOp.sbb.apply f x y = (al, g)) (hx : x.IsPacked)
    (hy : y.IsPacked) :
    adjustsHigh al g = true ↔ x.toNat / 16 < y.toNat / 16 + (adjustsLow al g).toNat := by
  have low := adjustsLow_sbb_iff subtracted hx.2 hy.2
  obtain ⟨total, aux⟩ := difference_of_sbb subtracted
  obtain ⟨hx, hx'⟩ := hx
  obtain ⟨hy, hy'⟩ := hy
  rw [adjustsHigh_iff]
  simp only [← Bool.toNat_eq_one, ← Bool.toNat_eq_zero] at low aux ⊢
  have := f.carry.toNat_le
  have := g.carry.toNat_le
  have := g.aux.toNat_le
  have := (adjustsLow al g).toNat_le
  omega

/-! ## The corrected result -/

/-- Two packed digits are added exactly. -/
theorem packedAdd_exact (added : AluOp.adc.apply f x y = (al, g)) (hx : x.IsPacked)
    (hy : y.IsPacked) :
    (packedAdd al g).1.IsPacked ∧ x.packed + y.packed + f.carry.toNat =
      (packedAdd al g).1.packed + (packedAdd al g).2.carry.toNat * 100 := by
  have low := adjustsLow_adc_iff added hx.2 hy.2
  have high := adjustsHigh_adc_iff added hx hy
  have value := toNat_packedAdd al g
  have total := (sum_of_adc added).1
  change _ ∧ _ = _ + (adjustsHigh al g).toNat * 100
  rw [Byte.IsPacked] at hx hy ⊢
  simp only [Byte.packed, ← Bool.toNat_eq_one] at low high ⊢
  have := f.carry.toNat_le
  have := g.carry.toNat_le
  have := (adjustsLow al g).toNat_le
  have := (adjustsHigh al g).toNat_le
  omega

/-- Two packed digits are subtracted exactly. -/
theorem packedSub_exact (subtracted : AluOp.sbb.apply f x y = (al, g)) (hx : x.IsPacked)
    (hy : y.IsPacked) :
    (packedSub al g).1.IsPacked ∧ x.packed + (packedSub al g).2.carry.toNat * 100 =
      (packedSub al g).1.packed + y.packed + f.carry.toNat := by
  have low := adjustsLow_sbb_iff subtracted hx.2 hy.2
  have high := adjustsHigh_sbb_iff subtracted hx hy
  have value := toNat_packedSub al g
  have total := (difference_of_sbb subtracted).1
  change _ ∧ _ + (adjustsHigh al g).toNat * 100 = _
  rw [Byte.IsPacked] at hx hy ⊢
  simp only [Byte.packed, ← Bool.toNat_eq_one] at low high ⊢
  have := f.carry.toNat_le
  have := g.carry.toNat_le
  have := (adjustsLow al g).toNat_le
  have := (adjustsHigh al g).toNat_le
  have := (packedSub al g).1.isLt
  omega

/-- Two unpacked digits are added exactly. -/
theorem unpackedAdd_exact {ax : Word} (added : AluOp.adc.apply f x y = (ax.low, g))
    (hx : x.IsDigit) (hy : y.IsDigit) :
    (unpackedAdd ax g).1.low.IsDigit ∧ x.toNat + y.toNat + f.carry.toNat =
      (unpackedAdd ax g).1.low.toNat + (unpackedAdd ax g).2.carry.toNat * 10 := by
  rw [Byte.IsDigit] at hx hy
  have low := adjustsLow_adc_iff added (by omega) (by omega)
  have value := toNat_unpackedAdd ax g
  have total := (sum_of_adc added).1
  change _ ∧ _ = _ + (adjustsLow ax.low g).toNat * 10
  simp only [Byte.IsDigit, ← Bool.toNat_eq_one] at low ⊢
  have := f.carry.toNat_le
  have := g.carry.toNat_le
  have := (adjustsLow ax.low g).toNat_le
  omega

/-- Two unpacked digits are subtracted exactly. -/
theorem unpackedSub_exact {ax : Word} (subtracted : AluOp.sbb.apply f x y = (ax.low, g))
    (hx : x.IsDigit) (hy : y.IsDigit) :
    (unpackedSub ax g).1.low.IsDigit ∧ x.toNat + (unpackedSub ax g).2.carry.toNat * 10 =
      (unpackedSub ax g).1.low.toNat + y.toNat + f.carry.toNat := by
  rw [Byte.IsDigit] at hx hy
  have low := adjustsLow_sbb_iff subtracted (by omega) (by omega)
  have value := toNat_unpackedSub ax g
  have total := (difference_of_sbb subtracted).1
  change _ ∧ _ + (adjustsLow ax.low g).toNat * 10 = _
  simp only [Byte.IsDigit, ← Bool.toNat_eq_one] at low ⊢
  have := f.carry.toNat_le
  have := g.carry.toNat_le
  have := (adjustsLow ax.low g).toNat_le
  have := ax.low.isLt
  omega

end Sums

end Decimal

/-! ## Chains of digits -/

namespace Cpu

/-- AL held the digits `x`, `op` has combined them with the value `y` of its source, and a decimal
adjustment has made `r` of the result. The adjustment stands at a place of its own, so IP moves
between the two. -/
def Adjusts (op : AluOp) (adjustment : Instruction) (c : Cpu) (x y r : Byte) (d : Cpu) : Prop :=
  ∃ source ip, c.registers.low .ax = x ∧ c.readSource .byte source = y ∧
    (((c.execute (.alu .byte op (.register .accumulator) source)).1.jump ip).execute
      adjustment).1 = d ∧
    d.registers.low .ax = r

/-- Numbers with digits of a kind to the base `b` are calculated with exactly, the second one
counting with the sign `s`. For any two of one length there is a sequence of instructions that goes
through their digits, and whichever does leaves digits of the same kind, and what they do not hold
in CF. -/
def CalculatesExactly (P : Byte → Prop) (value : Byte → Nat) (b : Nat) (s : Int)
    (digit : Cpu → Byte → Byte → Byte → Cpu → Prop) : Prop :=
  ∀ (c : Cpu) (xs ys : List Byte), ys.length = xs.length → (∀ x ∈ xs, P x) → (∀ y ∈ ys, P y) →
    (∃ rs d, Chained digit c xs ys rs d) ∧
    ∀ rs d, Chained digit c xs ys rs d → rs.length = xs.length ∧ (∀ r ∈ rs, P r) ∧
      Nat.ofDigits b (xs.map value) + s * (Nat.ofDigits b (ys.map value) + c.flags.carry.toNat) =
        Nat.ofDigits b (rs.map value) + s * (d.flags.carry.toNat * b ^ xs.length)

variable {op : AluOp} {adjustment : Instruction} {s : Int} {c d : Cpu} {x y r : Byte}

/-- Any digits can be brought into AL and any others be combined with them. -/
theorem exists_adjusts (op : AluOp) (adjustment : Instruction) (c : Cpu) (x y : Byte) :
    ∃ ready r d, ready.flags.carry = c.flags.carry ∧ Adjusts op adjustment ready x y r d := by
  refine ⟨c.setLow .ax x, _, _, rfl, .immediate y, 0, ?_, rfl, rfl, rfl⟩
  exact Registers.low_setLow c.registers .ax x

/-- Digits that are exact with their carries make up numbers that are. -/
theorem calculatesExactly_of_digit {P : Byte → Prop} {value : Byte → Nat} {b : Nat}
    (digit : ∀ {c x y r d}, Adjusts op adjustment c x y r d → P x → P y → P r ∧
      value x + s * (value y + c.flags.carry.toNat) = value r + s * (d.flags.carry.toNat * b)) :
    CalculatesExactly P value b s (Adjusts op adjustment) := by
  intro c xs ys same hx hy
  refine ⟨Chained.exists_of_length_eq (exists_adjusts op adjustment) c same, fun rs d chain => ?_⟩
  exact ⟨chain.length_eq.2, chain.exact value digit hx hy⟩

/-- What the adjustment finds is what `op` leaves in AL and in the flags. AH is still as it was. -/
theorem Adjusts.exists_between (adjusts : Adjusts op adjustment c x y r d)
    (counts : op.Counts s) :
    ∃ between : Cpu, op.apply c.flags x y = (between.registers.ax.low, between.flags) ∧
      between.registers.high .ax = c.registers.high .ax ∧
      (between.execute adjustment).1 = d ∧ d.registers.low .ax = r := by
  obtain ⟨source, ip, hx, hy, done, hr⟩ := adjusts
  refine ⟨_, ?_, ?_, done, hr⟩
  · have combines : Combines .byte op c x y _ _ :=
      ⟨.register .accumulator, source, hx, hy, rfl, rfl⟩
    exact combines.eq_apply counts
  · cases counts <;> exact Registers.high_setLow c.registers .ax _

theorem Adjusts.exact_daa (adjusts : Adjusts .adc .daa c x y r d) (hx : x.IsPacked)
    (hy : y.IsPacked) :
    r.IsPacked ∧ x.packed + (1 : Int) * (y.packed + c.flags.carry.toNat) =
      r.packed + (1 : Int) * (d.flags.carry.toNat * (100 : Nat)) := by
  obtain ⟨between, added, _, rfl, rfl⟩ := adjusts.exists_between .adc
  have result : (between.execute .daa).1.registers.low .ax =
      (Decimal.packedAdd between.registers.ax.low between.flags).1 :=
    Registers.low_setLow between.registers .ax _
  obtain ⟨digits, exact⟩ := Decimal.packedAdd_exact added hx hy
  rw [← result] at digits exact
  change _ = _ + (between.execute .daa).1.flags.carry.toNat * 100 at exact
  exact ⟨digits, by omega⟩

theorem Adjusts.exact_das (adjusts : Adjusts .sbb .das c x y r d) (hx : x.IsPacked)
    (hy : y.IsPacked) :
    r.IsPacked ∧ x.packed + (-1 : Int) * (y.packed + c.flags.carry.toNat) =
      r.packed + (-1 : Int) * (d.flags.carry.toNat * (100 : Nat)) := by
  obtain ⟨between, subtracted, _, rfl, rfl⟩ := adjusts.exists_between .sbb
  have result : (between.execute .das).1.registers.low .ax =
      (Decimal.packedSub between.registers.ax.low between.flags).1 :=
    Registers.low_setLow between.registers .ax _
  obtain ⟨digits, exact⟩ := Decimal.packedSub_exact subtracted hx hy
  rw [← result] at digits exact
  change _ + (between.execute .das).1.flags.carry.toNat * 100 = _ at exact
  exact ⟨digits, by omega⟩

/-- After `AAA` AL holds a digit, CF and AF are both the carry in decimal, and AH counts it. -/
theorem Adjusts.exact_aaa (adjusts : Adjusts .adc .aaa c x y r d) (hx : x.IsDigit)
    (hy : y.IsDigit) :
    r.IsDigit ∧ x.toNat + y.toNat + c.flags.carry.toNat =
        r.toNat + d.flags.carry.toNat * 10 ∧
      d.flags.aux = d.flags.carry ∧
      d.registers.high .ax =
        if d.flags.carry then c.registers.high .ax + 1 else c.registers.high .ax := by
  obtain ⟨between, added, ah, rfl, rfl⟩ := adjusts.exists_between .adc
  obtain ⟨digit, exact⟩ := Decimal.unpackedAdd_exact added hx hy
  rw [← ah]
  exact ⟨digit, exact, rfl, Decimal.high_unpackedAdd between.registers.ax between.flags⟩

/-- After `AAS` AL holds a digit, CF and AF are both the borrow in decimal, and AH pays for it. -/
theorem Adjusts.exact_aas (adjusts : Adjusts .sbb .aas c x y r d) (hx : x.IsDigit)
    (hy : y.IsDigit) :
    r.IsDigit ∧ x.toNat + d.flags.carry.toNat * 10 =
        r.toNat + y.toNat + c.flags.carry.toNat ∧
      d.flags.aux = d.flags.carry ∧
      d.registers.high .ax =
        if d.flags.carry then c.registers.high .ax - 1 else c.registers.high .ax := by
  obtain ⟨between, subtracted, ah, rfl, rfl⟩ := adjusts.exists_between .sbb
  obtain ⟨digit, exact⟩ := Decimal.unpackedSub_exact subtracted hx hy
  rw [← ah]
  exact ⟨digit, exact, rfl, Decimal.high_unpackedSub between.registers.ax between.flags⟩

/-- Sums and differences of decimal numbers of any length. `ADC` with `DAA` and `SBB` with `DAS` are
exact on packed digits, in bytes that count to the base 100, and `ADC` with `AAA` and `SBB` with
`AAS` on single ones, and CF brings the carry from one to the next. With single digits CF and AF are
set after each just if in decimal there is a carry or borrow, and AH changes by one just then. -/
theorem chained_decimals_exact :
    CalculatesExactly Byte.IsPacked Byte.packed 100 1 (Adjusts .adc .daa) ∧
    CalculatesExactly Byte.IsPacked Byte.packed 100 (-1) (Adjusts .sbb .das) ∧
    CalculatesExactly Byte.IsDigit BitVec.toNat 10 1 (Adjusts .adc .aaa) ∧
    CalculatesExactly Byte.IsDigit BitVec.toNat 10 (-1) (Adjusts .sbb .aas) ∧
    ∀ (c : Cpu) (x y r : Byte) (d : Cpu), x.IsDigit → y.IsDigit →
      (Adjusts .adc .aaa c x y r d → r.IsDigit ∧ d.flags.aux = d.flags.carry ∧
        (d.flags.carry = true ↔ 10 ≤ x.toNat + y.toNat + c.flags.carry.toNat) ∧
        d.registers.high .ax =
          if d.flags.carry then c.registers.high .ax + 1 else c.registers.high .ax) ∧
      (Adjusts .sbb .aas c x y r d → r.IsDigit ∧ d.flags.aux = d.flags.carry ∧
        (d.flags.carry = true ↔ x.toNat < y.toNat + c.flags.carry.toNat) ∧
        d.registers.high .ax =
          if d.flags.carry then c.registers.high .ax - 1 else c.registers.high .ax) := by
  refine ⟨calculatesExactly_of_digit Adjusts.exact_daa,
    calculatesExactly_of_digit Adjusts.exact_das,
    calculatesExactly_of_digit fun adjusts hx hy => ?_,
    calculatesExactly_of_digit fun adjusts hx hy => ?_,
    fun c x y r d hx hy => ⟨fun adjusts => ?_, fun adjusts => ?_⟩⟩
  · obtain ⟨digit, exact, _⟩ := adjusts.exact_aaa hx hy
    exact ⟨digit, by omega⟩
  · obtain ⟨digit, exact, _⟩ := adjusts.exact_aas hx hy
    exact ⟨digit, by omega⟩
  · obtain ⟨digit, exact, same, ah⟩ := adjusts.exact_aaa hx hy
    refine ⟨digit, same, ?_, ah⟩
    rw [Byte.IsDigit] at digit
    rw [← Bool.toNat_eq_one]
    have := d.flags.carry.toNat_le
    omega
  · obtain ⟨digit, exact, same, ah⟩ := adjusts.exact_aas hx hy
    refine ⟨digit, same, ?_, ah⟩
    rw [Byte.IsDigit] at hx hy digit
    rw [← Bool.toNat_eq_one]
    have := d.flags.carry.toNat_le
    omega

/-- The years 1999 and 1 make 2000: the low byte carries into the high one, and nothing is left in
CF. -/
theorem chained_decimals_exact_of_years :
    ∃ d, Chained (Adjusts .adc .daa) {} [0x99, 0x19] [0x01, 0x00] [0x00, 0x20] d ∧
      (1999 + 1 : Int) = 2000 + d.flags.carry.toNat * 100 ^ 2 := by
  have low : Adjusts .adc .daa { registers := { ax := 0x99 } } 0x99 0x01 0x00 _ :=
    ⟨.immediate 0x01, 0, rfl, rfl, rfl, rfl⟩
  have high : Adjusts .adc .daa { registers := { ax := 0x19 }, flags := { carry := true } }
      0x19 0x00 0x20 _ := ⟨.immediate 0x00, 0, rfl, rfl, rfl, rfl⟩
  obtain ⟨d, chain⟩ : ∃ d,
      Chained (Adjusts .adc .daa) {} [0x99, 0x19] [0x01, 0x00] [0x00, 0x20] d :=
    ⟨_, .cons (by rfl) low (.cons (by rfl) high (.nil _))⟩
  obtain ⟨_, exact⟩ := chained_decimals_exact.1 {} [0x99, 0x19] [0x01, 0x00] rfl
    (by decide) (by decide)
  obtain ⟨_, _, value⟩ := exact _ d chain
  rw [one_mul, one_mul] at value
  exact ⟨d, chain, value⟩

end Cpu

end I8086
