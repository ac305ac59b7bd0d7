/-!
# Hexadecimal text

Addresses and codes are written in upper case and padded with zeros on the left.
-/

namespace I8086

/-- The hexadecimal digits of `n`, at least `width` of them. -/
def hex (width n : Nat) : String :=
  let digits := (Nat.toDigits 16 n).map Char.toUpper
  String.ofList (List.replicate (width - digits.length) '0' ++ digits)

/-- Two digits. -/
def hexByte (b : BitVec 8) : String := hex 2 b.toNat

/-- Four digits. -/
def hexWord (w : BitVec 16) : String := hex 4 w.toNat

/-- A far address as `SSSS:OOOO`. -/
def hexFar (segment offset : BitVec 16) : String := hexWord segment ++ ":" ++ hexWord offset

end I8086
