import I8086.Arithmetic
import Mathlib.Tactic.Linarith

/-!
# Sums and differences as integers

A sum is found in one more bit than its operands have, and so is a difference. Read with its carry
on top a sum is exact, and a difference is exact if its borrow counts as a debt. All else follows
from these two equations, in every width: what the result is, when there is a carry, when the result
does not fit as a signed number, and when the lowest four bits carry or borrow.
-/

namespace I8086

/-- A number of `n` bits. -/
def IsUnsigned (n : Nat) (v : Int) : Prop := 0 ≤ v ∧ v < 2 ^ n

/-- A number of `n` bits the highest of which is its sign. -/
def IsSigned (n : Nat) (v : Int) : Prop := -2 ^ (n - 1) ≤ v ∧ v < 2 ^ (n - 1)

instance (n : Nat) (v : Int) : Decidable (IsUnsigned n v) := inferInstanceAs (Decidable (_ ∧ _))

instance (n : Nat) (v : Int) : Decidable (IsSigned n v) := inferInstanceAs (Decidable (_ ∧ _))

variable {n : Nat}

theorem two_pow_pred (pos : 0 < n) : 2 ^ n = 2 * 2 ^ (n - 1) := by
  obtain ⟨m, rfl⟩ := Nat.exists_eq_succ_of_ne_zero (Nat.ne_of_gt pos)
  exact Nat.pow_succ'

theorem natCast_two_pow (n : Nat) : ((2 ^ n : Nat) : Int) = 2 ^ n := Int.natCast_pow 2 n

theorem isUnsigned_toNat (x : BitVec n) : IsUnsigned n x.toNat := by
  refine ⟨Int.natCast_nonneg _, ?_⟩
  exact_mod_cast x.isLt

theorem isSigned_toInt (x : BitVec n) : IsSigned n x.toInt := ⟨BitVec.le_toInt x, BitVec.toInt_lt⟩

/-- The two readings of a vector, as a number with a sign and without. -/
theorem toInt_cases (x : BitVec n) :
    x.toInt = x.toNat ∧ 2 * x.toNat < 2 ^ n ∨
      x.toInt = x.toNat - (2 ^ n : Nat) ∧ 2 ^ n ≤ 2 * x.toNat := by
  rw [BitVec.toInt_eq_toNat_cond]
  split
  · rename_i positive
    exact .inl ⟨rfl, positive⟩
  · rename_i negative
    exact .inr ⟨rfl, Nat.le_of_not_lt negative⟩

/-- What a carry out of the highest bit counts: nothing, or as much as all bits can hold. -/
theorem mul_toNat_cases (k : Nat) (carry : Bool) :
    carry = false ∧ k * carry.toNat = 0 ∨ carry = true ∧ k * carry.toNat = k := by
  cases carry with
  | false => exact .inl ⟨rfl, Nat.mul_zero k⟩
  | true => exact .inr ⟨rfl, Nat.mul_one k⟩

/-- A vector that differs from a number by a multiple of the capacity is its remainder. -/
theorem toNat_eq_emod {v : BitVec n} {u k : Int} (same : (v.toNat : Int) = u - 2 ^ n * k) :
    (v.toNat : Int) = u % 2 ^ n := by
  have below : (v.toNat : Int) < 2 ^ n := by exact_mod_cast v.isLt
  rw [← Int.emod_eq_of_lt (Int.natCast_nonneg _) below, same, Int.sub_mul_emod_self_left]

namespace Sum

/-! ## One more bit -/

/-- The additional bit of a vector counts as much as all others can hold. -/
theorem toNat_eq_msb_add (wide : BitVec (n + 1)) :
    wide.toNat = (wide.setWidth n).toNat + 2 ^ n * wide.msb.toNat := by
  have bound := wide.isLt
  rw [Nat.pow_succ] at bound
  rw [BitVec.toNat_setWidth, BitVec.msb_eq_decide, Nat.add_sub_cancel]
  by_cases high : 2 ^ n ≤ wide.toNat
  · have low : wide.toNat - 2 ^ n < 2 ^ n := by omega
    rw [decide_eq_true high, Nat.mod_eq_sub_mod high, Nat.mod_eq_of_lt low, Bool.toNat_true]
    omega
  · rw [decide_eq_false high, Nat.mod_eq_of_lt (Nat.lt_of_not_le high), Bool.toNat_false]
    omega

theorem toNat_widened (x : BitVec n) : (x.setWidth (n + 1)).toNat = x.toNat := by
  rw [BitVec.toNat_setWidth, Nat.mod_eq_of_lt]
  exact Nat.lt_trans x.isLt (Nat.pow_lt_pow_succ (by decide))

theorem toNat_carry (carry : Bool) :
    ((BitVec.ofBool carry).setWidth (n + 1)).toNat = carry.toNat := by
  have one := carry.toNat_le
  have power := Nat.one_lt_two_pow (Nat.succ_ne_zero n)
  rw [BitVec.toNat_setWidth, BitVec.toNat_ofBool, Nat.mod_eq_of_lt (by omega)]

variable (x y : BitVec n) (carry : Bool)

/-- A sum is exact with its carry. -/
theorem toNat_add :
    (add x y carry).value.toNat + 2 ^ n * (add x y carry).carry.toNat =
      x.toNat + y.toNat + carry.toNat := by
  have hx := x.isLt
  have hy := y.isLt
  have hc := carry.toNat_le
  have double : 2 ^ (n + 1) = 2 ^ n + 2 ^ n := by rw [Nat.pow_succ, Nat.mul_two]
  have parts := toNat_eq_msb_add
    (x.setWidth (n + 1) + y.setWidth (n + 1) + (BitVec.ofBool carry).setWidth (n + 1))
  rw [BitVec.toNat_add, BitVec.toNat_add, toNat_widened, toNat_widened, toNat_carry,
    Nat.mod_add_mod, Nat.mod_eq_of_lt (by omega)] at parts
  exact parts.symm

/-- A difference is exact with its borrow. -/
theorem toNat_sub :
    (sub x y carry).value.toNat + y.toNat + carry.toNat =
      x.toNat + 2 ^ n * (sub x y carry).carry.toNat := by
  have hx := x.isLt
  have hy := y.isLt
  have hc := carry.toNat_le
  have double : 2 ^ (n + 1) = 2 ^ n + 2 ^ n := by rw [Nat.pow_succ, Nat.mul_two]
  obtain ⟨wide, eq⟩ : ∃ wide, wide =
      x.setWidth (n + 1) - y.setWidth (n + 1) - (BitVec.ofBool carry).setWidth (n + 1) := ⟨_, rfl⟩
  have value : (sub x y carry).value = wide.setWidth n := by rw [eq, sub]
  have borrow : (sub x y carry).carry = wide.msb := by rw [eq, sub]
  have restored : wide + (BitVec.ofBool carry).setWidth (n + 1) + y.setWidth (n + 1) =
      x.setWidth (n + 1) := by
    rw [eq, BitVec.sub_add_cancel, BitVec.sub_add_cancel]
  have sum := congrArg BitVec.toNat restored
  rw [BitVec.toNat_add, BitVec.toNat_add, toNat_widened, toNat_widened, toNat_carry,
    Nat.mod_add_mod] at sum
  have low := (wide.setWidth n).isLt
  have parts := toNat_eq_msb_add wide
  have out := mul_toNat_cases (2 ^ n) wide.msb
  rw [value, borrow]
  by_cases less : wide.toNat + carry.toNat + y.toNat < 2 ^ (n + 1)
  · rw [Nat.mod_eq_of_lt less] at sum
    omega
  · rw [Nat.mod_eq_sub_mod (Nat.le_of_not_lt less), Nat.mod_eq_of_lt (by omega)] at sum
    omega

/-! ## Results -/

theorem toNat_value_add :
    ((add x y carry).value.toNat : Int) = (x.toNat + y.toNat + carry.toNat) % 2 ^ n := by
  have total := congrArg (Nat.cast (R := Int)) (toNat_add x y carry)
  push_cast at total
  refine toNat_eq_emod (k := (add x y carry).carry.toNat) ?_
  linarith

theorem toNat_value_sub :
    ((sub x y carry).value.toNat : Int) = (x.toNat - y.toNat - carry.toNat) % 2 ^ n := by
  have total := congrArg (Nat.cast (R := Int)) (toNat_sub x y carry)
  push_cast at total
  refine toNat_eq_emod (k := -(sub x y carry).carry.toNat) ?_
  linarith

theorem toNat_carry_mod :
    ((BitVec.ofBool carry).setWidth n).toNat = carry.toNat % 2 ^ n := by
  rw [BitVec.toNat_setWidth, BitVec.toNat_ofBool]

/-- In the width of the operands a sum is the sum of vectors. -/
theorem value_add : (add x y carry).value = x + y + (BitVec.ofBool carry).setWidth n := by
  have total := toNat_add x y carry
  have value := (add x y carry).value.isLt
  apply BitVec.eq_of_toNat_eq
  rw [BitVec.toNat_add, BitVec.toNat_add, toNat_carry_mod, Nat.mod_add_mod, Nat.add_mod_mod,
    ← total, Nat.add_mul_mod_self_left, Nat.mod_eq_of_lt value]

/-- What has been subtracted can be added again. -/
theorem value_sub_add : (sub x y carry).value + y + (BitVec.ofBool carry).setWidth n = x := by
  have total := toNat_sub x y carry
  apply BitVec.eq_of_toNat_eq
  rw [BitVec.toNat_add, BitVec.toNat_add, toNat_carry_mod, Nat.mod_add_mod, Nat.add_mod_mod,
    total, Nat.add_mul_mod_self_left, Nat.mod_eq_of_lt x.isLt]

/-- A difference is the difference of vectors. -/
theorem value_sub : (sub x y carry).value = x - y - (BitVec.ofBool carry).setWidth n := by
  rw [BitVec.eq_sub_iff_add_eq, BitVec.eq_sub_iff_add_eq, BitVec.add_assoc, BitVec.add_comm _ y,
    ← BitVec.add_assoc, value_sub_add]

/-! ## Carries out of the highest bit -/

/-- There is a carry if the sum does not fit. -/
theorem carry_add_iff :
    (add x y carry).carry = true ↔ ¬IsUnsigned n (x.toNat + y.toNat + carry.toNat) := by
  have total := toNat_add x y carry
  have value := (add x y carry).value.isLt
  have cast := natCast_two_pow n
  rw [IsUnsigned]
  rcases mul_toNat_cases (2 ^ n) (add x y carry).carry with ⟨out, nothing⟩ | ⟨out, all⟩
  · refine iff_of_false (ne_true_of_eq_false out) (not_not.mpr ?_)
    omega
  · refine iff_of_true out ?_
    omega

/-- There is a borrow if the difference is negative. -/
theorem carry_sub_iff :
    (sub x y carry).carry = true ↔ ¬IsUnsigned n (x.toNat - y.toNat - carry.toNat) := by
  have total := toNat_sub x y carry
  have value := (sub x y carry).value.isLt
  have cast := natCast_two_pow n
  rw [IsUnsigned]
  rcases mul_toNat_cases (2 ^ n) (sub x y carry).carry with ⟨out, nothing⟩ | ⟨out, all⟩
  · refine iff_of_false (ne_true_of_eq_false out) (not_not.mpr ?_)
    omega
  · refine iff_of_true out ?_
    omega

/-! ## Signed overflow -/

/-- The signs tell whether the sum of signed numbers fits. -/
theorem overflow_add_iff (pos : 0 < n) :
    (add x y carry).overflow = true ↔ ¬IsSigned n (x.toInt + y.toInt + carry.toNat) := by
  have hx := toInt_cases x
  have hy := toInt_cases y
  have lx := x.isLt
  have ly := y.isLt
  have hc := carry.toNat_le
  have total := toNat_add x y carry
  have double := two_pow_pred pos
  have cast := natCast_two_pow (n - 1)
  have signs : (add x y carry).overflow =
      (x.msb == y.msb && (add x y carry).value.msb != x.msb) := rfl
  simp only [signs, IsSigned, BitVec.msb_eq_decide, Bool.and_eq_true, beq_iff_eq, bne_iff_ne,
    ne_eq, decide_eq_decide]
  have out := mul_toNat_cases (2 ^ n) (add x y carry).carry
  omega

/-- The signs tell whether the difference of signed numbers fits. -/
theorem overflow_sub_iff (pos : 0 < n) :
    (sub x y carry).overflow = true ↔ ¬IsSigned n (x.toInt - y.toInt - carry.toNat) := by
  have hx := toInt_cases x
  have hy := toInt_cases y
  have lx := x.isLt
  have ly := y.isLt
  have hc := carry.toNat_le
  have total := toNat_sub x y carry
  have double := two_pow_pred pos
  have cast := natCast_two_pow (n - 1)
  have signs : (sub x y carry).overflow =
      (x.msb != y.msb && (sub x y carry).value.msb != x.msb) := rfl
  simp only [signs, IsSigned, BitVec.msb_eq_decide, Bool.and_eq_true, bne_iff_ne, ne_eq,
    decide_eq_decide]
  have out := mul_toNat_cases (2 ^ n) (sub x y carry).carry
  omega

/-! ## Signs -/

theorem msb_iff (v : BitVec n) : v.msb = true ↔ 2 ^ (n - 1) ≤ v.toNat := by
  rw [BitVec.msb_eq_decide, decide_eq_true_eq]

/-- The sum of signed numbers is negative if its sign says so, or says the opposite and does not
fit. -/
theorem negative_add_iff (pos : 0 < n) :
    (add x y carry).value.msb ≠ (add x y carry).overflow ↔
      x.toInt + y.toInt + carry.toNat < 0 := by
  have hx := toInt_cases x
  have hy := toInt_cases y
  have lx := x.isLt
  have ly := y.isLt
  have hc := carry.toNat_le
  have total := toNat_add x y carry
  have double := two_pow_pred pos
  have cast := natCast_two_pow (n - 1)
  rw [ne_eq, Bool.eq_iff_iff, msb_iff, overflow_add_iff x y carry pos, IsSigned]
  have out := mul_toNat_cases (2 ^ n) (add x y carry).carry
  omega

/-- So is the difference. -/
theorem negative_sub_iff (pos : 0 < n) :
    (sub x y carry).value.msb ≠ (sub x y carry).overflow ↔
      x.toInt - y.toInt - carry.toNat < 0 := by
  have hx := toInt_cases x
  have hy := toInt_cases y
  have lx := x.isLt
  have ly := y.isLt
  have hc := carry.toNat_le
  have total := toNat_sub x y carry
  have double := two_pow_pred pos
  have cast := natCast_two_pow (n - 1)
  rw [ne_eq, Bool.eq_iff_iff, msb_iff, overflow_sub_iff x y carry pos, IsSigned]
  have out := mul_toNat_cases (2 ^ n) (sub x y carry).carry
  omega

/-! ## Carries out of the low digit -/

/-- Bit 4 of a sum differs from that of its operands if the lowest four bits carry. -/
theorem auxCarry_add_iff (wide : 4 < n) :
    auxCarry x y (add x y carry).value = true ↔
      ¬IsUnsigned 4 ((x.toNat % 16 : Nat) + (y.toNat % 16 : Nat) + carry.toNat) := by
  have cancel : ∀ a b c : Bool, ((a ^^ b) ^^ (a ^^ (b ^^ c))) = c := by decide
  rw [auxCarry, value_add, BitVec.getLsbD_xor, BitVec.getLsbD_xor,
    BitVec.getLsbD_add_add_bool wide, cancel, BitVec.carry, decide_eq_true_eq, IsUnsigned]
  omega

/-- Bit 4 of a difference differs from that of its operands if the lowest four bits borrow. -/
theorem auxCarry_sub_iff (wide : 4 < n) :
    auxCarry x y (sub x y carry).value = true ↔
      ¬IsUnsigned 4 ((x.toNat % 16 : Nat) - (y.toNat % 16 : Nat) - carry.toNat) := by
  have total := toNat_sub x y carry
  -- The minuend is the sum of the difference and the subtrahend, and so is its bit 4.
  have bit : x.getLsbD 4 = ((sub x y carry).value.getLsbD 4 ^^
      (y.getLsbD 4 ^^ BitVec.carry 4 (sub x y carry).value y carry)) := by
    rw [← BitVec.getLsbD_add_add_bool wide, value_sub_add]
  have cancel : ∀ a b c : Bool, (((a ^^ (b ^^ c)) ^^ b) ^^ a) = c := by decide
  have power : 2 ^ n = 16 * 2 ^ (n - 4) := by
    rw [show 16 = 2 ^ 4 from rfl, ← Nat.pow_add, Nat.add_sub_cancel' (Nat.le_of_lt wide)]
  rw [auxCarry, BitVec.getLsbD_xor, BitVec.getLsbD_xor, bit, cancel, BitVec.carry,
    decide_eq_true_eq, IsUnsigned]
  have out := mul_toNat_cases (2 ^ n) (sub x y carry).carry
  omega

end Sum

end I8086
