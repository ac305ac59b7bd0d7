import I8086.Flags

/-!
# Addition, subtraction and the bitwise operations

Everything here is generic in the operand width. A sum or difference comes with the carry (or
borrow) out of its top bit, which is the extra bit of the same computation one bit wider, and with
the signed overflow, which the signs of operands and result decide. `AluOp.apply` is the common
shape of the eight two-operand instructions: a result and the flags that follow from it.
-/

namespace I8086

/-- A sum or difference with its carry (or borrow) and its signed overflow. -/
structure Sum (n : Nat) where
  value : BitVec n
  overflow : Bool
  carry : Bool
deriving DecidableEq

namespace Sum

variable {n : Nat}

/-- The sum of two numbers and an incoming carry. -/
def add (x y : BitVec n) (carry : Bool) : Sum n :=
  let wide := x.setWidth (n + 1) + y.setWidth (n + 1) + (BitVec.ofBool carry).setWidth (n + 1)
  let value := wide.setWidth n
  { value
    overflow := x.msb == y.msb && value.msb != x.msb
    carry := wide.msb }

/-- The difference of two numbers and an incoming borrow. -/
def sub (x y : BitVec n) (borrow : Bool) : Sum n :=
  let wide := x.setWidth (n + 1) - y.setWidth (n + 1) - (BitVec.ofBool borrow).setWidth (n + 1)
  let value := wide.setWidth n
  { value
    overflow := x.msb != y.msb && value.msb != x.msb
    carry := wide.msb }

end Sum

/-- Whether the low byte has an even number of ones. -/
def evenParity {n : Nat} (x : BitVec n) : Bool :=
  (List.range 8).foldl (fun even i => even != x.getLsbD i) true

/-- The carry or borrow out of bit 3 shows as a difference between bit 4 of the result and bit 4
of the carry-free sum of the operands. -/
def auxCarry {n : Nat} (x y result : BitVec n) : Bool := (x ^^^ y ^^^ result).getLsbD 4

namespace Flags

variable {n : Nat}

/-- ZF, SF and PF describe a result. -/
def withResult (f : Flags) (v : BitVec n) : Flags :=
  { f with zero := v == 0, sign := v.msb, parity := evenParity v }

/-- The flags after a sum or difference of `x` and `y`. -/
def withSum (f : Flags) (x y : BitVec n) (s : Sum n) : Flags :=
  { f.withResult s.value with
    overflow := s.overflow
    carry := s.carry
    aux := auxCarry x y s.value }

/-- The flags after a bitwise operation: CF and OF are cleared, AF stays as it was. -/
def withLogical (f : Flags) (v : BitVec n) : Flags :=
  { f.withResult v with overflow := false, carry := false }

end Flags

/-- The eight two-operand operations. -/
inductive AluOp where
  | add | or | adc | sbb
  | and | sub | xor | cmp
deriving DecidableEq

namespace AluOp

/-- The operation with a given number, as opcodes and ModR/M bytes number them. -/
def ofNumber : Fin 8 → AluOp
  | 0 => add
  | 1 => or
  | 2 => adc
  | 3 => sbb
  | 4 => and
  | 5 => sub
  | 6 => xor
  | 7 => cmp

/-- Comparison keeps its first operand; every other operation replaces it. -/
def isComparison : AluOp → Bool
  | cmp => true
  | _ => false

/-- Result and flags of an operation. -/
def apply {n : Nat} (op : AluOp) (f : Flags) (x y : BitVec n) : BitVec n × Flags :=
  let sum (s : Sum n) := (s.value, f.withSum x y s)
  let logical (v : BitVec n) := (v, f.withLogical v)
  match op with
  | add => sum (.add x y false)
  | adc => sum (.add x y f.carry)
  | sub | cmp => sum (.sub x y false)
  | sbb => sum (.sub x y f.carry)
  | or => logical (x ||| y)
  | and => logical (x &&& y)
  | xor => logical (x ^^^ y)

end AluOp

/-- Adding one sets the flags of an addition except for CF, which stays. -/
def increment {n : Nat} (f : Flags) (x : BitVec n) : BitVec n × Flags :=
  let (v, g) := AluOp.add.apply f x 1
  (v, { g with carry := f.carry })

/-- Subtracting one sets the flags of a subtraction except for CF, which stays. -/
def decrement {n : Nat} (f : Flags) (x : BitVec n) : BitVec n × Flags :=
  let (v, g) := AluOp.sub.apply f x 1
  (v, { g with carry := f.carry })

/-- Quotient and remainder. There are none for a zero divisor. -/
def quotRem? {n : Nat} (x y : BitVec n) : Option (BitVec n × BitVec n) :=
  if y = 0 then none else some (x / y, x % y)

/-- Negation is subtraction from zero. -/
def negate {n : Nat} (f : Flags) (x : BitVec n) : BitVec n × Flags := AluOp.sub.apply f 0 x

end I8086
