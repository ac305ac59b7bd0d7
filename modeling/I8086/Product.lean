import I8086.Arithmetic

/-!
# Multiplication and division

A product is twice as wide as its factors; a dividend is twice as wide as its divisor. Quotient
and remainder share one such double value, with the remainder in its upper half. A repeat prefix
has an effect here that is easily overlooked: it negates signed products and signed quotients.
-/

namespace I8086

variable {n : Nat}

/-- How many numbers have `n` bits. -/
def capacity (n : Nat) : Nat := 1 <<< n

/-- The unsigned product. -/
def unsignedProduct (x y : BitVec n) : BitVec (n + n) := x.setWidth (n + n) * y.setWidth (n + n)

/-- The signed product, negated on request. -/
def signedProduct (x y : BitVec n) (negated : Bool) : BitVec (n + n) :=
  let p := x.signExtend (n + n) * y.signExtend (n + n)
  if negated then -p else p

/-- CF and OF after a multiplication: set exactly if the upper half holds more than the extension
of the lower one. -/
def Flags.withWide (f : Flags) (wide : Bool) : Flags := { f with carry := wide, overflow := wide }

/-- Whether an unsigned product needs its upper half. -/
def unsignedWide (p : BitVec (n + n)) : Bool := (p.setWidth n).setWidth (n + n) != p

/-- Whether a signed product needs its upper half. -/
def signedWide (p : BitVec (n + n)) : Bool := (p.setWidth n).signExtend (n + n) != p

/-- Quotient and remainder of an unsigned division, remainder above quotient. There is none for a
zero divisor or if the quotient does not fit. -/
def unsignedDivide? (x : BitVec (n + n)) (y : BitVec n) : Option (BitVec (n + n)) :=
  let q := x.toNat / y.toNat
  let r := x.toNat % y.toNat
  if y.toNat = 0 ∨ capacity n ≤ q then none
  else some (BitVec.ofNat n r ++ BitVec.ofNat n q)

/-- Quotient and remainder of a signed division that rounds toward zero, remainder above quotient;
the quotient is negated on request. There is none for a zero divisor or if the quotient does not
fit. -/
def signedDivide? (x : BitVec (n + n)) (y : BitVec n) (negated : Bool) :
    Option (BitVec (n + n)) :=
  let q := (if negated then -1 else 1) * x.toInt.tdiv y.toInt
  let r := x.toInt.tmod y.toInt
  if y.toInt = 0 ∨ 2 * q < -capacity n ∨ capacity n ≤ 2 * q then none
  else some (BitVec.ofInt n r ++ BitVec.ofInt n q)

end I8086
