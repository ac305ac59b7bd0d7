import I8086.Decimal
import I8086.Proofs.Checked.Number
import I8086.Proofs.Product

/-!
# Products and quotients in the host's numbers

The host multiplies in numbers of twice the width, divides without a sign in the same, and with a
sign in four times the width, where even the negated quotient of the least number by minus one
fits. It divides only after a look at the divisor.
-/

namespace I8086.Checked

variable {n : Nat}

/-- The unsigned product, in a number of twice the width. -/
def product (x y : BitVec n) : Checked (BitVec (n + n)) := do
  let p ← unsigned (n + n) (x.toNat * y.toNat : Nat)
  pure (BitVec.ofNat (n + n) p)

/-- Whether the upper half of a product holds anything. -/
def upperUsed (p : BitVec (n + n)) : Checked Bool := do
  let k ← amount (n + n) n
  pure (p >>> k != 0#(n + n))

/-- The signed product, in a number of twice the width, and its wrapping negation on request. -/
def signedProduct (x y : BitVec n) (negated : Bool) : Checked (BitVec (n + n)) := do
  let p ← signed (n + n) (x.toInt * y.toInt)
  pure (if negated then -BitVec.ofInt (n + n) p else BitVec.ofInt (n + n) p)

/-- Quotient and remainder of an unsigned division. -/
def unsignedDivide (x : BitVec (n + n)) (y : BitVec n) : Checked (Option (BitVec (n + n))) :=
  if y.toNat = 0 then pure none
  else do
    let q ← divide x.toNat y.toNat
    let r ← modulo x.toNat y.toNat
    pure (if 2 ^ n ≤ q then none else some (BitVec.ofNat n r ++ BitVec.ofNat n q))

/-- A number in two's complement, negated on request. -/
def negateIf (negated : Bool) (bits : Nat) (z : Int) : Checked Int :=
  if negated then signed bits (-z) else pure z

/-- Quotient and remainder of a signed division, in a number of four times the width. -/
def signedDivide (x : BitVec (n + n)) (y : BitVec n) (negated : Bool) :
    Checked (Option (BitVec (n + n))) :=
  if y.toInt = 0 then pure none
  else do
    let q ← quotient (4 * n) x.toInt y.toInt
    let r ← remainder (4 * n) x.toInt y.toInt
    let q ← negateIf negated (4 * n) q
    pure
      (if q < -2 ^ (n - 1) ∨ 2 ^ (n - 1) ≤ q then none
      else some (BitVec.ofInt n r ++ BitVec.ofInt n q))

/-- AL in two digits, the higher one in AH. -/
def splitDigits (ax : Word) (base : Byte) (f : Flags) : Checked (Option (Word × Flags)) :=
  if base = 0 then pure none
  else do
    let q ← divide ax.low.toNat base.toNat
    let r ← modulo ax.low.toNat base.toNat
    let low : Byte := BitVec.ofNat 8 r
    pure (some (Word.ofBytes low (BitVec.ofNat 8 q), f.withResult low))

@[simp] theorem product_eq (x y : BitVec n) : product x y = pure (unsignedProduct x y) := by
  have fits : x.toNat * y.toNat < 2 ^ (n + n) := by
    rw [Nat.pow_add]
    exact Nat.mul_lt_mul'' x.isLt y.isLt
  rw [product, unsigned_natCast fits, pure_bind]
  refine congrArg pure (BitVec.eq_of_toNat_eq ?_)
  rw [BitVec.toNat_ofNat, Nat.mod_eq_of_lt fits, toNat_unsignedProduct]

theorem upperUsed_eq (size : n = 8 ∨ n = 16) (p : BitVec (n + n)) :
    upperUsed p = pure (unsignedWide p) := by
  have hp := p.isLt
  rw [upperUsed, amount_eq (by omega), pure_bind]
  refine congrArg pure ?_
  rw [unsignedWide, Bool.eq_iff_iff]
  simp only [bne_iff_ne, ne_eq, ← BitVec.toNat_inj, BitVec.toNat_ushiftRight,
    BitVec.toNat_setWidth, BitVec.toNat_ofNat, Nat.shiftRight_eq_div_pow]
  rcases size with rfl | rfl <;> simp only [Nat.reduceAdd, Nat.reducePow] at * <;> omega

theorem signedProduct_eq (size : n = 8 ∨ n = 16) (x y : BitVec n) (negated : Bool) :
    signedProduct x y negated = pure (I8086.signedProduct x y negated) := by
  have range := isSigned_product (by omega : 0 < n) x y false
  rw [show signFactor true false = 1 from rfl, Int.one_mul] at range
  have fits := signed_eq range.1 range.2
  rw [signedProduct, fits, pure_bind, I8086.signedProduct, BitVec.ofInt_mul]
  rfl

theorem unsignedDivide_eq (x : BitVec (n + n)) (y : BitVec n) :
    unsignedDivide x y = pure (unsignedDivide? x y) := by
  unfold unsignedDivide unsignedDivide?
  by_cases zero : y.toNat = 0
  · rw [if_pos zero, if_pos (.inl zero)]
  · rw [if_neg zero, divide_eq zero, pure_bind, modulo_eq zero, pure_bind]
    simp only [zero, false_or, capacity_eq]

theorem signedDivide_eq (size : n = 8 ∨ n = 16) (x : BitVec (n + n)) (y : BitVec n)
    (negated : Bool) : signedDivide x y negated = pure (signedDivide? x y negated) := by
  unfold signedDivide signedDivide?
  by_cases zero : y.toInt = 0
  · rw [if_pos zero, if_pos (.inl zero)]
  · have hx := x.toInt_lt
    have lx := x.le_toInt
    have smaller := Int.natAbs_tdiv_le_natAbs x.toInt y.toInt
    have quotient : quotient (4 * n) x.toInt y.toInt = pure (x.toInt.tdiv y.toInt) := by
      apply quotient_eq zero <;> rcases size with rfl | rfl <;>
        simp only [Nat.reduceAdd, Nat.reduceMul, Nat.reduceSub] at * <;> omega
    have negation : negateIf negated (4 * n) (x.toInt.tdiv y.toInt) =
        pure ((if negated then -1 else 1) * x.toInt.tdiv y.toInt) := by
      cases negated with
      | false => rw [negateIf, if_neg Bool.false_ne_true, if_neg Bool.false_ne_true, Int.one_mul]
      | true =>
          rw [negateIf, if_pos rfl, if_pos rfl, Int.neg_one_mul]
          apply signed_eq <;> rcases size with rfl | rfl <;>
            simp only [Nat.reduceAdd, Nat.reduceMul, Nat.reduceSub] at * <;> omega
    rw [if_neg zero, quotient, pure_bind, remainder, quotient, pure_bind, pure_bind, negation,
      pure_bind]
    generalize (if negated then -1 else 1) * x.toInt.tdiv y.toInt = q
    have range : (q < -2 ^ (n - 1) ∨ 2 ^ (n - 1) ≤ q) ↔ ¬IsSigned n q := by
      rw [IsSigned]
      omega
    simp only [zero, false_or, range, not_isSigned_iff (by omega : 0 < n)]

theorem splitDigits_eq (ax : Word) (base : Byte) (f : Flags) :
    splitDigits ax base f = pure (Decimal.split? ax base f) := by
  unfold splitDigits Decimal.split? quotRem?
  split
  case isTrue zero => rfl
  case isFalse nonzero =>
      have divisor : base.toNat ≠ 0 := fun h => nonzero (BitVec.eq_of_toNat_eq h)
      have quotient : BitVec.ofNat 8 (ax.low.toNat / base.toNat) = ax.low / base := by
        rw [← BitVec.toNat_udiv, BitVec.ofNat_toNat, BitVec.setWidth_eq]
      have remainder : BitVec.ofNat 8 (ax.low.toNat % base.toNat) = ax.low % base := by
        rw [← BitVec.toNat_umod, BitVec.ofNat_toNat, BitVec.setWidth_eq]
      rw [divide_eq divisor, pure_bind, modulo_eq divisor, pure_bind, quotient, remainder]
      rfl

end I8086.Checked
