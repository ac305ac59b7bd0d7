import I8086.Word

/-!
# The registers

Thirteen word registers, of which four also have byte halves, and the remembered start of the
current instruction. Instructions name registers in three ways: by a number from 0 to 7 in the
word form (`AX CX DX BX SP BP SI DI`), by a number in the byte form (`AL CL DL BL AH CH DH BH`),
and by a segment number (`ES CS SS DS`). Writing one register leaves every other one alone.
-/

namespace I8086

/-- The thirteen word registers. -/
inductive Register where
  | ax | bx | cx | dx
  | sp | bp | si | di
  | cs | ds | es | ss
  | ip
deriving DecidableEq

/-- The segment registers, in the order of their two-bit numbers. -/
inductive Segment where
  | es | cs | ss | ds
deriving DecidableEq

/-- A three-bit register field. Its width decides which register it means. -/
abbrev RegisterNumber := Fin 8

namespace Segment

/-- The segment with the given two-bit number. -/
def ofBits (n : Fin 4) : Segment :=
  match n with
  | 0 => es
  | 1 => cs
  | 2 => ss
  | 3 => ds

/-- A three-bit field names a segment only if its top bit is clear. -/
def ofNumber? (n : RegisterNumber) : Option Segment :=
  match n with
  | 0 => some es
  | 1 => some cs
  | 2 => some ss
  | 3 => some ds
  | _ => none

/-- The register that holds the segment's base. -/
def register : Segment → Register
  | es => .es
  | cs => .cs
  | ss => .ss
  | ds => .ds

/-- The segment's name in assembly text. -/
def name : Segment → String
  | es => "ES"
  | cs => "CS"
  | ss => "SS"
  | ds => "DS"

end Segment

namespace RegisterNumber

/-- AX and AL, the accumulators. -/
def accumulator : RegisterNumber := 0

/-- SP in the word form. -/
def stackPointer : RegisterNumber := 4

/-- The word register with this number. -/
def register : RegisterNumber → Register
  | 0 => .ax
  | 1 => .cx
  | 2 => .dx
  | 3 => .bx
  | 4 => .sp
  | 5 => .bp
  | 6 => .si
  | 7 => .di

/-- The word register that the byte register with this number is a half of. -/
def whole (n : RegisterNumber) : Register := RegisterNumber.register (n &&& 3)

/-- Whether the byte register with this number is the high half. -/
def isHigh (n : RegisterNumber) : Bool := 4 ≤ n.val

/-- The name in the word form. -/
def wordName : RegisterNumber → String
  | 0 => "AX"
  | 1 => "CX"
  | 2 => "DX"
  | 3 => "BX"
  | 4 => "SP"
  | 5 => "BP"
  | 6 => "SI"
  | 7 => "DI"

/-- The name in the byte form. -/
def byteName : RegisterNumber → String
  | 0 => "AL"
  | 1 => "CL"
  | 2 => "DL"
  | 3 => "BL"
  | 4 => "AH"
  | 5 => "CH"
  | 6 => "DH"
  | 7 => "BH"

end RegisterNumber

/-- The contents of the registers. `opIp` is the offset of the first byte, prefixes included, of
the instruction that is being executed. -/
@[ext]
structure Registers where
  ax : Word := 0
  bx : Word := 0
  cx : Word := 0
  dx : Word := 0
  sp : Word := 0
  bp : Word := 0
  si : Word := 0
  di : Word := 0
  cs : Word := 0
  ds : Word := 0
  es : Word := 0
  ss : Word := 0
  ip : Word := 0
  opIp : Word := 0
deriving DecidableEq

namespace Registers

/-- The power-on state: CS is FFFF and everything else zero. -/
def reset : Registers := { cs := 0xFFFF }

/-- The contents of a word register. -/
def get (r : Registers) : Register → Word
  | .ax => r.ax
  | .bx => r.bx
  | .cx => r.cx
  | .dx => r.dx
  | .sp => r.sp
  | .bp => r.bp
  | .si => r.si
  | .di => r.di
  | .cs => r.cs
  | .ds => r.ds
  | .es => r.es
  | .ss => r.ss
  | .ip => r.ip

/-- Replaces the contents of a word register. -/
def set (r : Registers) (name : Register) (v : Word) : Registers :=
  match name with
  | .ax => { r with ax := v }
  | .bx => { r with bx := v }
  | .cx => { r with cx := v }
  | .dx => { r with dx := v }
  | .sp => { r with sp := v }
  | .bp => { r with bp := v }
  | .si => { r with si := v }
  | .di => { r with di := v }
  | .cs => { r with cs := v }
  | .ds => { r with ds := v }
  | .es => { r with es := v }
  | .ss => { r with ss := v }
  | .ip => { r with ip := v }

@[simp] theorem get_set_self (r : Registers) (name : Register) (v : Word) :
    (r.set name v).get name = v := by
  cases name <;> rfl

theorem get_set_ne (r : Registers) {name other : Register} (v : Word) (h : other ≠ name) :
    (r.set name v).get other = r.get other := by
  cases name <;> cases other <;> simp_all [get, set]

@[simp] theorem opIp_set (r : Registers) (name : Register) (v : Word) :
    (r.set name v).opIp = r.opIp := by
  cases name <;> rfl

/-- The low half of a word register. -/
def low (r : Registers) (name : Register) : Byte := (r.get name).low

/-- The high half of a word register. -/
def high (r : Registers) (name : Register) : Byte := (r.get name).high

/-- Replaces the low half and keeps the high one. -/
def setLow (r : Registers) (name : Register) (v : Byte) : Registers :=
  r.set name (Word.ofBytes v (r.high name))

/-- Replaces the high half and keeps the low one. -/
def setHigh (r : Registers) (name : Register) (v : Byte) : Registers :=
  r.set name (Word.ofBytes (r.low name) v)

@[simp] theorem low_setLow (r : Registers) (name : Register) (v : Byte) :
    (r.setLow name v).low name = v := by
  simp [setLow, low]

@[simp] theorem high_setLow (r : Registers) (name : Register) (v : Byte) :
    (r.setLow name v).high name = r.high name := by
  simp [setLow, high]

@[simp] theorem high_setHigh (r : Registers) (name : Register) (v : Byte) :
    (r.setHigh name v).high name = v := by
  simp [setHigh, high]

@[simp] theorem low_setHigh (r : Registers) (name : Register) (v : Byte) :
    (r.setHigh name v).low name = r.low name := by
  simp [setHigh, low]

/-- The byte register with the given number. -/
def byte (r : Registers) (n : RegisterNumber) : Byte :=
  if n.isHigh then r.high n.whole else r.low n.whole

/-- Replaces the byte register with the given number. -/
def setByte (r : Registers) (n : RegisterNumber) (v : Byte) : Registers :=
  if n.isHigh then r.setHigh n.whole v else r.setLow n.whole v

/-- The word register with the given number. -/
def word (r : Registers) (n : RegisterNumber) : Word := r.get n.register

/-- Replaces the word register with the given number. -/
def setWord (r : Registers) (n : RegisterNumber) (v : Word) : Registers := r.set n.register v

/-- The register with the given number, in either width. -/
def read (r : Registers) : (w : Width) → RegisterNumber → w.Value
  | .byte, n => r.byte n
  | .word, n => r.word n

/-- Replaces the register with the given number, in either width. -/
def write (r : Registers) : (w : Width) → RegisterNumber → w.Value → Registers
  | .byte, n, v => r.setByte n v
  | .word, n, v => r.setWord n v

/-- The base of a segment. -/
def segment (r : Registers) (s : Segment) : Word := r.get s.register

/-- Replaces the base of a segment. -/
def setSegment (r : Registers) (s : Segment) (v : Word) : Registers := r.set s.register v

end Registers

end I8086
