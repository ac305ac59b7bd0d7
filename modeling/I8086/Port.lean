import I8086.Hex
import I8086.Record
import I8086.Registers

/-!
# Input and output ports

No device is attached to any of the 65536 ports. Reading one gives a byte of ones, writing one has
no effect, and a word access is a byte access to the port and to the one after it. Only the log
shows that there was an access.
-/

namespace I8086

/-- How an instruction names a port. -/
inductive Port where
  | fixed (n : Byte)
  | dx
deriving DecidableEq

namespace Port

/-- The number of the port. -/
def number (r : Registers) : Port → Word
  | fixed n => n.setWidth 16
  | dx => r.dx

/-- What a byte port delivers. -/
def readByte (_number : Word) : Byte := 0xFF

/-- What two adjacent byte ports deliver. -/
def readWord (number : Word) : Word := Word.ofBytes (readByte number) (readByte (number + 1))

/-- What a port delivers, in either width. -/
def read : (w : Width) → Word → w.Value
  | .byte, number => readByte number
  | .word, number => readWord number

/-- What reading a byte port adds to the log. -/
def readRecord (number : Word) : Record :=
  ⟨.trace, "IN " ++ hexWord number ++ "h -> FFh (no device)"⟩

/-- What writing a byte port adds to the log. -/
def writeRecord (number : Word) (v : Byte) : Record :=
  ⟨.trace, "OUT " ++ hexWord number ++ "h <- " ++ hexByte v ++ "h (discarded)"⟩

/-- What reading a port adds to the log, in either width. -/
def readRecords : Width → Word → List Record
  | .byte, number => [readRecord number]
  | .word, number => [readRecord number, readRecord (number + 1)]

/-- What writing a port adds to the log, in either width. -/
def writeRecords : (w : Width) → Word → w.Value → List Record
  | .byte, number, v => [writeRecord number v]
  | .word, number, v => [writeRecord number (Word.low v), writeRecord (number + 1) (Word.high v)]

end Port

end I8086
