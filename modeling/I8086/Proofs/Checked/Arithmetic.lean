import I8086.Proofs.Checked.Number
import I8086.Proofs.Sum

/-!
# Sums in the host's numbers

The host adds and subtracts with wrapping operations and finds the carry from them. Only where a
carry comes in does it need a larger number: it finds the signed overflow by adding up in 32 bits.
Neither that nor anything else in the two-operand operations can go wrong, and the outcome is the
one that the machine defines.
-/

namespace I8086.Checked

variable {n : Nat}

/-- A sum with carry; the signed overflow is found in 32 bits. -/
def addCarry (x y : BitVec n) (carry : Bool) : Checked (Sum n) := do
  let wide ← signed 32 (x.toInt + y.toInt)
  let wide ← signed 32 (wide + carry.toInt)
  pure
    { value := x + y + (BitVec.ofBool carry).setWidth n
      overflow := wide < -2 ^ (n - 1) || 2 ^ (n - 1) ≤ wide
      carry := 2 ^ n ≤ x.toNat + y.toNat || 2 ^ n ≤ (x + y).toNat + carry.toNat }

/-- A difference with borrow; the signed overflow is found in 32 bits. -/
def subBorrow (x y : BitVec n) (borrow : Bool) : Checked (Sum n) := do
  let wide ← signed 32 (x.toInt - y.toInt)
  let wide ← signed 32 (wide - borrow.toInt)
  pure
    { value := x - y - (BitVec.ofBool borrow).setWidth n
      overflow := wide < -2 ^ (n - 1) || 2 ^ (n - 1) ≤ wide
      carry := x.toNat < y.toNat || (x - y).toNat < borrow.toNat }

/-- Result and flags of a two-operand operation. -/
def apply (op : AluOp) (f : Flags) (x y : BitVec n) : Checked (BitVec n × Flags) :=
  match op with
  | .adc => do
    let s ← addCarry x y f.carry
    pure (s.value, f.withSum x y s)
  | .sbb => do
    let s ← subBorrow x y f.carry
    pure (s.value, f.withSum x y s)
  | op => pure (op.apply f x y)

theorem toInt_eq_toNat (carry : Bool) : carry.toInt = carry.toNat := by
  cases carry <;> rfl

/-- What the host compares with the limits of a signed number tells whether it is one. -/
theorem outside_iff (v : Int) :
    (decide (v < -2 ^ (n - 1)) || decide (2 ^ (n - 1) ≤ v)) = true ↔ ¬IsSigned n v := by
  rw [Bool.or_eq_true, decide_eq_true_eq, decide_eq_true_eq, IsSigned, not_and_or, Int.not_le,
    Int.not_lt]

/-- Operands fit 16 bits, so what 32 bits hold is more than any sum of them. -/
theorem toInt_small (size : n = 8 ∨ n = 16) (x : BitVec n) :
    -32768 ≤ x.toInt ∧ x.toInt < 32768 := by
  have low := BitVec.le_toInt x
  have high := BitVec.toInt_lt (x := x)
  rcases size with rfl | rfl
  · omega
  · omega

/-- The carry is found in two steps: out of the sum of the operands, or out of that with the carry
that comes in. -/
theorem carry_in_steps_iff (x y : BitVec n) (carry : Bool) :
    (decide (2 ^ n ≤ x.toNat + y.toNat) || decide (2 ^ n ≤ (x + y).toNat + carry.toNat)) = true ↔
      ¬IsUnsigned n (x.toNat + y.toNat + carry.toNat) := by
  have hx := x.isLt
  have hy := y.isLt
  have hc := carry.toNat_le
  have cast := natCast_two_pow n
  have sum := BitVec.toNat_add x y
  rw [Bool.or_eq_true, decide_eq_true_eq, decide_eq_true_eq, IsUnsigned]
  by_cases first : 2 ^ n ≤ x.toNat + y.toNat
  · refine iff_of_true (.inl first) ?_
    omega
  · rw [Nat.mod_eq_of_lt (Nat.lt_of_not_le first)] at sum
    omega

/-- So is the borrow. -/
theorem borrow_in_steps_iff (x y : BitVec n) (borrow : Bool) :
    (decide (x.toNat < y.toNat) || decide ((x - y).toNat < borrow.toNat)) = true ↔
      ¬IsUnsigned n (x.toNat - y.toNat - borrow.toNat) := by
  have hx := x.isLt
  have hy := y.isLt
  have hc := borrow.toNat_le
  have cast := natCast_two_pow n
  rw [Bool.or_eq_true, decide_eq_true_eq, decide_eq_true_eq, IsUnsigned]
  by_cases first : x.toNat < y.toNat
  · refine iff_of_true (.inl first) ?_
    omega
  · have difference := BitVec.toNat_sub_of_le (BitVec.le_def.mpr (Nat.le_of_not_lt first))
    omega

theorem addCarry_eq (size : n = 8 ∨ n = 16) (x y : BitVec n) (carry : Bool) :
    addCarry x y carry = pure (.add x y carry) := by
  have hx := toInt_small size x
  have hy := toInt_small size y
  have hc := carry.toNat_le
  have pos : 0 < n := by omega
  have limit : (2 : Int) ^ (32 - 1) = 2147483648 := by decide
  have first : signed 32 (x.toInt + y.toInt) = pure (x.toInt + y.toInt) := by
    apply signed_eq <;> omega
  have second : signed 32 (x.toInt + y.toInt + carry.toNat) =
      pure (x.toInt + y.toInt + carry.toNat) := by
    apply signed_eq <;> omega
  rw [addCarry, first, pure_bind, toInt_eq_toNat, second, pure_bind, ← Sum.value_add,
    Bool.eq_iff_iff.mpr ((outside_iff _).trans (Sum.overflow_add_iff x y carry pos).symm),
    Bool.eq_iff_iff.mpr ((carry_in_steps_iff x y carry).trans (Sum.carry_add_iff x y carry).symm)]

theorem subBorrow_eq (size : n = 8 ∨ n = 16) (x y : BitVec n) (borrow : Bool) :
    subBorrow x y borrow = pure (.sub x y borrow) := by
  have hx := toInt_small size x
  have hy := toInt_small size y
  have hc := borrow.toNat_le
  have pos : 0 < n := by omega
  have limit : (2 : Int) ^ (32 - 1) = 2147483648 := by decide
  have first : signed 32 (x.toInt - y.toInt) = pure (x.toInt - y.toInt) := by
    apply signed_eq <;> omega
  have second : signed 32 (x.toInt - y.toInt - borrow.toNat) =
      pure (x.toInt - y.toInt - borrow.toNat) := by
    apply signed_eq <;> omega
  rw [subBorrow, first, pure_bind, toInt_eq_toNat, second, pure_bind, ← Sum.value_sub,
    Bool.eq_iff_iff.mpr ((outside_iff _).trans (Sum.overflow_sub_iff x y borrow pos).symm),
    Bool.eq_iff_iff.mpr
      ((borrow_in_steps_iff x y borrow).trans (Sum.carry_sub_iff x y borrow).symm)]

theorem apply_eq (size : n = 8 ∨ n = 16) (op : AluOp) (f : Flags) (x y : BitVec n) :
    apply op f x y = pure (op.apply f x y) := by
  cases op with
  | adc => rw [apply, addCarry_eq size, pure_bind]; rfl
  | sbb => rw [apply, subBorrow_eq size, pure_bind]; rfl
  | _ => rfl

end I8086.Checked
