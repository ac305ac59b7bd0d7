import I8086.Word

/-!
# Keys

Which byte the system reports for a key press. Characters outside the seven-bit code, function
keys and cursor keys have none. Control with a letter gives the letter's place in the alphabet.
-/

namespace I8086

/-- A key. -/
inductive Key where
  | char (c : Char)
  | enter | backspace | tab | backTab | escape
  | left | right | up | down | home | delete
  | null
  | function (n : Nat)
deriving DecidableEq

/-- The modifier keys that are held down. -/
structure Modifiers where
  shift : Bool := false
  control : Bool := false
  alt : Bool := false
  super : Bool := false
deriving DecidableEq

/-- The byte for a key press. -/
def Key.toByte? (key : Key) (modifiers : Modifiers) : Option Byte :=
  match key with
  | char c =>
    if modifiers.control && c.isAlpha then some (BitVec.ofNat 8 (c.toUpper.toNat - 0x40))
    else if c.toNat < 0x80 then some (BitVec.ofNat 8 c.toNat)
    else none
  | enter => some 0x0D
  | backspace => some 0x08
  | tab => some 0x09
  | escape => some 0x1B
  | _ => none

end I8086
