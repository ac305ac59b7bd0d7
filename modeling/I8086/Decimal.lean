import I8086.Arithmetic

/-!
# Decimal adjustment

After a binary addition or subtraction of decimal digits these operations bring the result back to
decimal form. Packed numbers have two digits in a byte and are adjusted in AL; unpacked numbers
have one, and a carry goes on into AH. The remaining two convert between a number below 100 and
its two digits, in any base.
-/

namespace I8086.Decimal

/-- The low digit is out of range, or its addition carried. -/
def adjustsLow (al : Byte) (f : Flags) : Bool := f.aux || 10 ≤ (al &&& 0x0F).toNat

/-- The high digit is out of range, or its addition carried. With AF set on entry the bound is
9F, since the low digit then has no part in it. -/
def adjustsHigh (al : Byte) (f : Flags) : Bool :=
  f.carry || (if f.aux then 0x9F else 0x99) < al.toNat

/-- Adjusts AL after the addition of packed digits. AF and CF say which digits were corrected. -/
def packedAdd (al : Byte) (f : Flags) : Byte × Flags :=
  let low := adjustsLow al f
  let high := adjustsHigh al f
  let v := al + (if low then 0x06 else 0) + (if high then 0x60 else 0)
  (v, { f.withResult v with aux := low, carry := high })

/-- Adjusts AL after the subtraction of packed digits. AF and CF say which digits were corrected;
the borrow of the low digit's correction does not reach CF. -/
def packedSub (al : Byte) (f : Flags) : Byte × Flags :=
  let low := adjustsLow al f
  let high := adjustsHigh al f
  let v := al - (if low then 0x06 else 0) - (if high then 0x60 else 0)
  (v, { f.withResult v with aux := low, carry := high })

/-- Adjusts AX after the addition of unpacked digits: AL keeps one digit, a carry goes into AH. -/
def unpackedAdd (ax : Word) (f : Flags) : Word × Flags :=
  let al := ax.low
  let adjust := adjustsLow al f
  let low := (if adjust then al + 6 else al) &&& 0x0F
  let high := if adjust then ax.high + 1 else ax.high
  (Word.ofBytes low high, { f with aux := adjust, carry := adjust })

/-- Adjusts AX after the subtraction of unpacked digits: AL keeps one digit, a borrow goes into
AH. -/
def unpackedSub (ax : Word) (f : Flags) : Word × Flags :=
  let al := ax.low
  let adjust := adjustsLow al f
  let low := (if adjust then al - 6 else al) &&& 0x0F
  let high := if adjust then ax.high - 1 else ax.high
  (Word.ofBytes low high, { f with aux := adjust, carry := adjust })

/-- Splits AL into two digits, the higher one in AH, unless the base is zero. -/
def split? (ax : Word) (base : Byte) (f : Flags) : Option (Word × Flags) :=
  (quotRem? ax.low base).map fun (q, r) => (Word.ofBytes r q, f.withResult r)

/-- Joins the digits in AH and AL to one number in AL. -/
def join (ax : Word) (base : Byte) (f : Flags) : Word × Flags :=
  let v := ax.low + ax.high * base
  (Word.ofBytes v 0, f.withResult v)

end I8086.Decimal
