import I8086.Fault
import Mathlib

/-!
# Computing with the host's numbers

The host that runs the machine has numbers of fixed sizes. It stops the whole program where a
result does not fit its size, a divisor is zero, a shift goes too far, or a table is read behind
its end. `Checked` computations do the same: every operation that the host could refuse is written
with its condition, and breaking it is a `Trap`. A computation that is `pure` has met all of them.
-/

namespace I8086

/-- Why the host gives up in the middle of a computation. -/
inductive Trap where
  /-- A result does not fit the size of its number. -/
  | overflow
  | zeroDivisor
  /-- A shift by as many bits as the number has, or by more. -/
  | shiftTooFar
  /-- A table has no entry with this index. -/
  | index
  /-- An access to memory was refused. -/
  | fault (f : Fault)
  /-- A loop has used up the rounds that it may take. -/
  | unfinished
deriving DecidableEq

/-- A computation that the host may give up. -/
abbrev Checked := Except Trap

namespace Checked

/-- A number of so many bits without a sign. -/
def unsigned (bits : Nat) (z : Int) : Checked Nat :=
  if 0 ≤ z ∧ z < 2 ^ bits then pure z.toNat else throw .overflow

/-- A number of so many bits in two's complement. -/
def signed (bits : Nat) (z : Int) : Checked Int :=
  if -2 ^ (bits - 1) ≤ z ∧ z < 2 ^ (bits - 1) then pure z else throw .overflow

/-- The difference of numbers without a sign. -/
def difference (x y : Nat) : Checked Nat := if y ≤ x then pure (x - y) else throw .overflow

/-- The quotient that rounds toward zero, in two's complement. -/
def quotient (bits : Nat) (x y : Int) : Checked Int :=
  if y = 0 then throw .zeroDivisor else signed bits (x.tdiv y)

/-- The remainder of that quotient. It fails where the quotient does. -/
def remainder (bits : Nat) (x y : Int) : Checked Int := do
  let _ ← quotient bits x y
  pure (x.tmod y)

/-- The quotient of numbers without a sign. -/
def divide (x y : Nat) : Checked Nat := if y = 0 then throw .zeroDivisor else pure (x / y)

/-- The remainder of numbers without a sign. -/
def modulo (x y : Nat) : Checked Nat := if y = 0 then throw .zeroDivisor else pure (x % y)

/-- A shift amount for numbers of so many bits. -/
def amount (bits count : Nat) : Checked Nat :=
  if count < bits then pure count else throw .shiftTooFar

/-- The entry of a table. -/
def entry {α : Type} (table : List α) (i : Nat) : Checked α :=
  match table[i]? with
  | some v => pure v
  | none => throw .index

/-- An access that the memory may refuse. -/
def access {α : Type} : Except Fault α → Checked α
  | .ok v => pure v
  | .error f => throw (.fault f)

theorem unsigned_eq {bits : Nat} {z : Int} (nonneg : 0 ≤ z) (fits : z < 2 ^ bits) :
    unsigned bits z = pure z.toNat := if_pos ⟨nonneg, fits⟩

theorem unsigned_natCast {bits n : Nat} (fits : n < 2 ^ bits) : unsigned bits n = pure n :=
  unsigned_eq (Int.natCast_nonneg n) (by exact_mod_cast fits)

theorem difference_eq {x y : Nat} (fits : y ≤ x) : difference x y = pure (x - y) := if_pos fits

theorem signed_eq {bits : Nat} {z : Int} (low : -2 ^ (bits - 1) ≤ z) (high : z < 2 ^ (bits - 1)) :
    signed bits z = pure z := if_pos ⟨low, high⟩

theorem quotient_eq {bits : Nat} {x y : Int} (nonzero : y ≠ 0)
    (low : -2 ^ (bits - 1) ≤ x.tdiv y) (high : x.tdiv y < 2 ^ (bits - 1)) :
    quotient bits x y = pure (x.tdiv y) := (if_neg nonzero).trans (signed_eq low high)

theorem divide_eq {x y : Nat} (nonzero : y ≠ 0) : divide x y = pure (x / y) := if_neg nonzero

theorem modulo_eq {x y : Nat} (nonzero : y ≠ 0) : modulo x y = pure (x % y) := if_neg nonzero

theorem amount_eq {bits count : Nat} (fits : count < bits) : amount bits count = pure count :=
  if_pos fits

@[simp] theorem access_ok {α : Type} (v : α) : access (.ok v) = pure v := rfl

end Checked

end I8086
