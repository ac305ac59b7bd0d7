import I8086.Flags
import I8086.Arithmetic

/-!
# Shifts and rotates

The eight operations of the shift group, generic in the operand width. Counts are not reduced: a
shift by the width or more empties the operand, and a rotate goes round as often as it takes. The
rotates through carry turn the operand with CF as an extra top bit, so they repeat after one more
step than the operand has bits.

A count of zero changes nothing. Otherwise CF is the last bit moved out. OF is defined for single
steps only and keeps its value for longer ones.
-/

namespace I8086

/-- The operations, in the order of their numbers; number 6 is a second form of `shl`. -/
inductive ShiftOp where
  | rol | ror | rcl | rcr
  | shl | shr | sar
deriving DecidableEq

namespace ShiftOp

/-- The operation with a given number. -/
def ofNumber : Fin 8 → ShiftOp
  | 0 => rol
  | 1 => ror
  | 2 => rcl
  | 3 => rcr
  | 4 => shl
  | 5 => shr
  | 6 => shl
  | 7 => sar

/-- Rotates keep every bit of the operand. -/
def isRotate : ShiftOp → Bool
  | rol | ror | rcl | rcr => true
  | shl | shr | sar => false

end ShiftOp

/-- A rotated or shifted operand and the carry that goes with it. -/
structure Shifted (n : Nat) where
  value : BitVec n
  carry : Bool
deriving DecidableEq

namespace Shifted

variable {n : Nat}

/-- Splits an operand that has the carry as its top bit. -/
def ofWide (wide : BitVec (n + 1)) : Shifted n := ⟨wide.setWidth n, wide.msb⟩

/-- Rotates operand and carry together to the left. -/
def rotateCarryLeft (x : BitVec n) (count : Nat) (carry : Bool) : Shifted n :=
  ofWide ((BitVec.cons carry x).rotateLeft count)

/-- Rotates operand and carry together to the right. -/
def rotateCarryRight (x : BitVec n) (count : Nat) (carry : Bool) : Shifted n :=
  ofWide ((BitVec.cons carry x).rotateRight count)

end Shifted

namespace ShiftOp

variable {n : Nat}

/-- The operand after `count` steps, for a positive count. -/
def shift (op : ShiftOp) (x : BitVec n) (count : Nat) (carry : Bool) : Shifted n :=
  match op with
  | rol =>
    let v := x.rotateLeft count
    ⟨v, v.getLsbD 0⟩
  | ror =>
    let v := x.rotateRight count
    ⟨v, v.msb⟩
  | rcl => .rotateCarryLeft x count carry
  | rcr => .rotateCarryRight x count carry
  | shl => .ofWide (x.setWidth (n + 1) <<< count)
  | shr => ⟨x >>> count, x.getLsbD (count - 1)⟩
  | sar => ⟨x.sshiftRight count, (x.sshiftRight (count - 1)).getLsbD 0⟩

/-- OF after a single step: for left moves the carry differs from the new sign, for right rotates
the two top bits of the result differ, for right shifts the sign has changed. -/
def overflow (op : ShiftOp) (x : BitVec n) (s : Shifted n) : Bool :=
  match op with
  | rol | rcl | shl => s.value.msb != s.carry
  | ror | rcr => s.value.msb != s.value.getMsbD 1
  | shr | sar => x.msb != s.value.msb

/-- Result and flags of an operation with an unreduced count. -/
def apply (op : ShiftOp) (f : Flags) (x : BitVec n) (count : Nat) : BitVec n × Flags :=
  if count = 0 then (x, f)
  else
    let s := op.shift x count f.carry
    let g :=
      { f with
        carry := s.carry
        overflow := if count = 1 then op.overflow x s else f.overflow }
    (s.value, if op.isRotate then g else g.withResult s.value)

end ShiftOp

end I8086
