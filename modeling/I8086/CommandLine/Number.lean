/-!
# Numbers on the command line

An unsigned number is one or more digits of its radix, after an optional plus sign. It has to be
at most a given bound. Digits are looked at from the left: the first character that is no digit or
the first one that exceeds the bound decides which error is reported.
-/

namespace I8086.CommandLine

/-- Why a text is no number. -/
inductive NumberError where
  | empty
  | invalidDigit
  | tooLarge
deriving DecidableEq

/-- The wording of an error. -/
def NumberError.message : NumberError → String
  | empty => "cannot parse integer from empty string"
  | invalidDigit => "invalid digit found in string"
  | tooLarge => "number too large to fit in target type"

/-- The value of a digit, in a radix of at most sixteen. -/
def digitValue? (radix : Nat) (c : Char) : Option Nat :=
  let v :=
    if c.isDigit then c.toNat - '0'.toNat
    else if 'a' ≤ c ∧ c ≤ 'f' then c.toNat - 'a'.toNat + 10
    else if 'A' ≤ c ∧ c ≤ 'F' then c.toNat - 'A'.toNat + 10
    else radix
  if v < radix then some v else none

/-- Reads digits after a value that has been read already. -/
def parseDigits (radix bound : Nat) : List Char → (value : Nat) → Except NumberError Nat
  | [], value => .ok value
  | c :: cs, value =>
    match digitValue? radix c with
    | none => .error .invalidDigit
    | some d =>
      let next := value * radix + d
      if bound < next then .error .tooLarge else parseDigits radix bound cs next

/-- Reads an unsigned number that is at most `bound`. -/
def parseUnsigned (radix bound : Nat) (cs : List Char) : Except NumberError Nat :=
  match cs with
  | [] => .error .empty
  | ['+'] => .error .invalidDigit
  | '+' :: digits => parseDigits radix bound digits 0
  | digits => parseDigits radix bound digits 0

end I8086.CommandLine
