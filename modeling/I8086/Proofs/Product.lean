import I8086.Product
import I8086.Proofs.Sum

/-!
# Products and quotients as integers

A product is exact in twice the width of its factors, with a sign and without, and so is its
negation. Quotient and remainder are those of a division that rounds toward zero; there are none if
the divisor is zero or if the quotient, negated where that is asked for, does not fit into its half
of the dividend's width.
-/

namespace I8086

theorem capacity_eq (n : Nat) : capacity n = 2 ^ n := Nat.one_shiftLeft n

/-! ## Numbers with a sign and without -/

section Readings

variable {n : Nat}

/-- The number that a vector stands for, with a sign or without. -/
def reading (signed : Bool) (x : BitVec n) : Int := if signed then x.toInt else x.toNat

/-- A number that some vector of `n` bits stands for. -/
def Fits (signed : Bool) (n : Nat) (v : Int) : Prop :=
  if signed then IsSigned n v else IsUnsigned n v

instance (signed : Bool) (n : Nat) (v : Int) : Decidable (Fits signed n v) := by
  unfold Fits
  infer_instance

/-- The upper half of a number that fits into its lower half. -/
def extension (signed : Bool) (lower : BitVec n) : BitVec n :=
  if signed && lower.msb then BitVec.allOnes n else 0

/-- What a repeat prefix does to the products and quotients of signed numbers. -/
def signFactor (signed negated : Bool) : Int := if signed && negated then -1 else 1

theorem reading_inj {signed : Bool} {x y : BitVec n} :
    reading signed x = reading signed y ↔ x = y := by
  cases signed with
  | false => exact Int.natCast_inj.trans BitVec.toNat_inj
  | true => exact BitVec.toInt_inj

theorem reading_zero (signed : Bool) : reading signed (0 : BitVec n) = 0 := by
  cases signed with
  | false => exact congrArg Nat.cast BitVec.toNat_zero
  | true => exact BitVec.toInt_zero

theorem reading_eq_zero_iff (signed : Bool) (x : BitVec n) : reading signed x = 0 ↔ x = 0 := by
  rw [← reading_zero (n := n) signed, reading_inj]

theorem fits_reading (signed : Bool) (x : BitVec n) : Fits signed n (reading signed x) := by
  cases signed with
  | false => exact isUnsigned_toNat x
  | true => exact isSigned_toInt x

theorem signFactor_eq (signed negated : Bool) :
    signFactor signed negated = 1 ∨ signed = true ∧ signFactor signed negated = -1 := by
  revert signed negated
  decide

end Readings

/-! ## Products -/

section Products

variable {n : Nat}

theorem toNat_unsignedProduct (x y : BitVec n) :
    (unsignedProduct x y).toNat = x.toNat * y.toNat := by
  have room : 2 ^ n ≤ 2 ^ (n + n) := Nat.pow_le_pow_right Nat.two_pos (Nat.le_add_left n n)
  have fits : x.toNat * y.toNat < 2 ^ (n + n) := by
    rw [Nat.pow_add]
    exact Nat.mul_lt_mul'' x.isLt y.isLt
  rw [unsignedProduct, BitVec.toNat_mul, BitVec.toNat_setWidth, BitVec.toNat_setWidth,
    Nat.mod_eq_of_lt (Nat.lt_of_lt_of_le x.isLt room),
    Nat.mod_eq_of_lt (Nat.lt_of_lt_of_le y.isLt room), Nat.mod_eq_of_lt fits]

/-- The product of two signed numbers fits into twice their width, and its negation does too. -/
theorem isSigned_product (pos : 0 < n) (x y : BitVec n) (negated : Bool) :
    IsSigned (n + n) (signFactor true negated * (x.toInt * y.toInt)) := by
  have low := BitVec.le_toInt_mul_toInt (x := x) (y := y)
  have high := BitVec.toInt_mul_toInt_le (x := x) (y := y)
  have double : (2 : Int) ^ (n + n - 1) = 2 * 2 ^ (n * 2 - 2) := by
    rw [show n + n - 1 = n * 2 - 2 + 1 by omega, Int.pow_succ, Int.mul_comm]
  have positive : (0 : Int) < 2 ^ (n * 2 - 2) := Int.pow_pos (by decide)
  rw [IsSigned, double]
  rcases signFactor_eq true negated with one | ⟨_, minus⟩
  · rw [one]
    omega
  · rw [minus]
    omega

theorem toInt_signedProduct (pos : 0 < n) (x y : BitVec n) (negated : Bool) :
    (signedProduct x y negated).toInt = signFactor true negated * (x.toInt * y.toInt) := by
  have product : signedProduct x y negated =
      BitVec.ofInt (n + n) (signFactor true negated * (x.toInt * y.toInt)) := by
    cases negated with
    | false =>
        rw [show signFactor true false = 1 from rfl, Int.one_mul, BitVec.ofInt_mul]
        rfl
    | true =>
        rw [show signFactor true true = -1 from rfl, Int.neg_one_mul, BitVec.ofInt_neg,
          BitVec.ofInt_mul]
        rfl
  obtain ⟨low, high⟩ := isSigned_product pos x y negated
  rw [product, BitVec.toInt_ofInt_eq_self (Nat.add_pos_left pos n) low high]

/-- A number of twice the width is its upper half above its lower one. -/
theorem upper_append_lower (v : BitVec (n + n)) : v.extractLsb' n n ++ v.setWidth n = v := by
  refine BitVec.eq_of_getLsbD_eq fun i inside => ?_
  rw [BitVec.getLsbD_append, BitVec.getLsbD_setWidth, BitVec.getLsbD_extractLsb']
  split
  · rename_i lower
    simp only [lower, decide_true, Bool.true_and]
  · have offset : i - n < n := by omega
    rw [decide_eq_true offset, Bool.true_and, show n + (i - n) = i by omega]

/-- Two numbers of one lower half differ if their upper halves do. -/
theorem append_bne_append (u v lower : BitVec n) : (v ++ lower != u ++ lower) = (u != v) := by
  rw [Bool.eq_iff_iff, bne_iff_ne, bne_iff_ne]
  refine not_congr ⟨fun same => ?_, fun same => same ▸ rfl⟩
  have upper := congrArg (BitVec.extractLsb' n n) same
  rw [BitVec.extractLsb'_append_eq_left, BitVec.extractLsb'_append_eq_left] at upper
  exact upper.symm

/-- CF and OF tell whether the upper half is more than the extension of the lower one. -/
theorem unsignedWide_append (upper lower : BitVec n) :
    unsignedWide (upper ++ lower) = (upper != extension false lower) := by
  have extended : lower.setWidth (n + n) = (0 : BitVec n) ++ lower := by
    refine BitVec.eq_of_getLsbD_eq fun i inside => ?_
    rw [BitVec.getLsbD_append, BitVec.getLsbD_setWidth]
    split
    · simp only [inside, decide_true, Bool.true_and]
    · rename_i above
      simp [BitVec.getLsbD_of_ge lower i (Nat.le_of_not_lt above)]
  rw [unsignedWide, BitVec.setWidth_append_eq_right, extended, append_bne_append]
  rfl

theorem signedWide_append (upper lower : BitVec n) :
    signedWide (upper ++ lower) = (upper != extension true lower) := by
  have extended : lower.signExtend (n + n) = extension true lower ++ lower := by
    refine BitVec.eq_of_getLsbD_eq fun i inside => ?_
    rw [BitVec.getLsbD_append, BitVec.getLsbD_signExtend, extension, Bool.true_and]
    split
    · simp only [inside, decide_true, Bool.true_and]
    · have offset : i - n < n := by omega
      cases lower.msb <;> simp [inside, offset]
  rw [signedWide, BitVec.setWidth_append_eq_right, extended, append_bne_append]

end Products

/-! ## Quotients and remainders -/

/-- A division that rounds toward zero: the remainder is smaller than the divisor and has the sign
of the dividend. -/
structure TruncatedDivision (x y q r : Int) : Prop where
  exact : x = q * y + r
  smaller : r.natAbs < y.natAbs
  sign : r = 0 ∨ r.sign = x.sign

theorem truncatedDivision (x : Int) {y : Int} (nonzero : y ≠ 0) :
    TruncatedDivision x y (x.tdiv y) (x.tmod y) where
  exact := by rw [Int.mul_comm, Int.mul_tdiv_add_tmod]
  smaller := by
    rw [Int.natAbs_tmod]
    exact Nat.mod_lt _ (Int.natAbs_pos.mpr nonzero)
  sign := by
    have sign := Int.sign_tmod x y
    split at sign
    · exact .inl (Int.sign_eq_zero_iff_zero.mp sign)
    · exact .inr sign

section Quotients

variable {n : Nat}

/-- Quotient and remainder, as they are found without a sign or with one. -/
def divide? (signed negated : Bool) (x : BitVec (n + n)) (y : BitVec n) :
    Option (BitVec (n + n)) :=
  if signed then signedDivide? x y negated else unsignedDivide? x y

variable {signed negated : Bool} {x : BitVec (n + n)} {y : BitVec n}

theorem unsignedDivide?_eq (x : BitVec (n + n)) (y : BitVec n) :
    unsignedDivide? x y =
      if y = 0 ∨ ¬IsUnsigned n ((x.toNat : Int).tdiv y.toNat) then none
      else some (BitVec.ofNat n (x.toNat % y.toNat) ++ BitVec.ofNat n (x.toNat / y.toNat)) := by
  have zero : y.toNat = 0 ↔ y = 0 :=
    Int.natCast_eq_zero.symm.trans (reading_eq_zero_iff false y)
  have range : capacity n ≤ x.toNat / y.toNat ↔
      ¬IsUnsigned n ((x.toNat : Int).tdiv y.toNat) := by
    have cast := natCast_two_pow n
    rw [capacity_eq, ← Int.ofNat_tdiv, IsUnsigned]
    generalize x.toNat / y.toNat = q
    omega
  simp only [unsignedDivide?, zero, range]

/-- A signed quotient fits if its double is less than what all bits can hold. -/
theorem not_isSigned_iff (pos : 0 < n) (q : Int) :
    ¬IsSigned n q ↔ 2 * q < -capacity n ∨ (capacity n : Int) ≤ 2 * q := by
  have double := two_pow_pred pos
  have cast := natCast_two_pow (n - 1)
  rw [capacity_eq, IsSigned]
  omega

theorem signedDivide?_eq (pos : 0 < n) (x : BitVec (n + n)) (y : BitVec n) (negated : Bool) :
    signedDivide? x y negated =
      if y = 0 ∨ ¬IsSigned n (signFactor true negated * x.toInt.tdiv y.toInt) then none
      else some (BitVec.ofInt n (x.toInt.tmod y.toInt) ++
        BitVec.ofInt n (signFactor true negated * x.toInt.tdiv y.toInt)) := by
  have zero : y.toInt = 0 ↔ y = 0 := reading_eq_zero_iff true y
  simp only [signedDivide?, zero, ← not_isSigned_iff pos]
  rfl

/-- There is no quotient if the divisor is zero or the quotient does not fit. -/
theorem divide?_of_fault (pos : 0 < n) (fault : y = 0 ∨ ¬Fits signed n
      (signFactor signed negated * (reading signed x).tdiv (reading signed y))) :
    divide? signed negated x y = none := by
  cases signed with
  | false =>
      rw [show signFactor false negated = 1 from rfl, Int.one_mul] at fault
      exact (unsignedDivide?_eq x y).trans (if_pos fault)
  | true => exact (signedDivide?_eq pos x y negated).trans (if_pos fault)

/-- Otherwise quotient and remainder are found exactly. -/
theorem divide?_of_fits (pos : 0 < n) (nonzero : y ≠ 0) (fits : Fits signed n
      (signFactor signed negated * (reading signed x).tdiv (reading signed y))) :
    ∃ q r : BitVec n, divide? signed negated x y = some (r ++ q) ∧
      reading signed q = signFactor signed negated * (reading signed x).tdiv (reading signed y) ∧
      reading signed r = (reading signed x).tmod (reading signed y) := by
  have found : ¬(y = 0 ∨ ¬Fits signed n
      (signFactor signed negated * (reading signed x).tdiv (reading signed y))) :=
    not_or.mpr ⟨nonzero, not_not.mpr fits⟩
  have divisor : reading signed y ≠ 0 := mt (reading_eq_zero_iff signed y).mp nonzero
  have smaller := (truncatedDivision (reading signed x) divisor).smaller
  cases signed with
  | false =>
      rw [show signFactor false negated = 1 from rfl, Int.one_mul] at found fits ⊢
      refine ⟨_, _, (unsignedDivide?_eq x y).trans (if_neg found), ?_, ?_⟩
      · change ((BitVec.ofNat n _).toNat : Int) = (x.toNat : Int).tdiv y.toNat
        have below : (x.toNat : Int).tdiv y.toNat < 2 ^ n := fits.2
        rw [← Int.ofNat_tdiv, ← natCast_two_pow, Int.ofNat_lt] at below
        rw [BitVec.toNat_ofNat, Nat.mod_eq_of_lt below, Int.ofNat_tdiv]
      · change ((BitVec.ofNat n _).toNat : Int) = (x.toNat : Int).tmod y.toNat
        change ((x.toNat : Int).tmod y.toNat).natAbs < y.toNat at smaller
        rw [← Int.ofNat_tmod, Int.natAbs_natCast] at smaller
        rw [BitVec.toNat_ofNat, Nat.mod_eq_of_lt (Nat.lt_trans smaller y.isLt), Int.ofNat_tmod]
  | true =>
      refine ⟨_, _, (signedDivide?_eq pos x y negated).trans (if_neg found), ?_, ?_⟩
      · exact BitVec.toInt_ofInt_eq_self pos fits.1 fits.2
      · change (x.toInt.tmod y.toInt).natAbs < y.toInt.natAbs at smaller
        have range := isSigned_toInt y
        rw [IsSigned] at range
        exact BitVec.toInt_ofInt_eq_self pos (by omega) (by omega)

/-- A product that is divided by one of its factors gives the other one, and nothing remains. -/
theorem divide?_of_product (pos : 0 < n) (nonzero : y ≠ 0) (plain : (signed && negated) = false)
    {a : BitVec n} (product : reading signed x = reading signed a * reading signed y) :
    divide? signed negated x y = some ((0 : BitVec n) ++ a) := by
  have factor : signFactor signed negated = 1 := by
    rw [signFactor, plain]
    rfl
  have divisor : reading signed y ≠ 0 := mt (reading_eq_zero_iff signed y).mp nonzero
  have quotient : signFactor signed negated * (reading signed x).tdiv (reading signed y) =
      reading signed a := by
    rw [factor, Int.one_mul, product, Int.mul_tdiv_cancel _ divisor]
  have fits := fits_reading signed a
  rw [← quotient] at fits
  obtain ⟨q, r, found, hq, hr⟩ := divide?_of_fits pos nonzero fits
  rw [quotient, reading_inj] at hq
  rw [product, Int.mul_tmod_left, reading_eq_zero_iff] at hr
  rw [found, hq, hr]

end Quotients

end I8086
