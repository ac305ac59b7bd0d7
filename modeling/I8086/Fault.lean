import I8086.Hex
import I8086.Word

/-!
# Faults

Why an operation of the machine could not be carried out. Of itself the machine raises only
`illegalInstruction` while it executes instructions. A handler that the host has registered may give
up with any fault, which is passed on; the console services give up with `io` alone. The other two
come from requests by number: to place bytes in memory, to read them there, or to load a program.
-/

namespace I8086

/-- The causes for which an operation is refused or a program stopped. -/
inductive Fault where
  /-- The bytes at `cs:ip` are no instruction. `opcode` is the first byte that is no prefix. -/
  | illegalInstruction (opcode : Byte) (cs ip : Word)
  /-- A linear access from `address` on does not end inside memory. -/
  | outOfBounds (address : Nat)
  /-- A program image of `size` bytes leaves no room for the stack. -/
  | programTooLarge (size : Nat)
  /-- The host's console failed. -/
  | io (reason : String)
deriving DecidableEq

/-- The wording of a fault. -/
def Fault.message : Fault → String
  | .illegalInstruction opcode cs ip =>
      "illegal instruction 0x" ++ hexByte opcode ++ " at " ++ hexFar cs ip
  | .outOfBounds address => "memory access out of bounds at 0x" ++ hex 5 address
  | .programTooLarge size => "program of " ++ toString size ++ " bytes does not fit in its segment"
  | .io reason => "host I/O failed: " ++ reason

end I8086
