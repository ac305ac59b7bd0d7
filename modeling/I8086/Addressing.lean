import I8086.Cpu

/-!
# Operands and how instructions name them

A ModR/M byte names two operands: a register, and a place that is either a register or a memory
location. The location is given by a base (a sum of address registers) and a displacement that
follows in the instruction stream, and belongs to a default segment unless a prefix overrides it.

`Place` is that static description, read off the instruction's bytes alone. `Operand` is what it
denotes once the address registers are known: a register, or an offset in a segment.
-/

namespace I8086

/-- The register part of an effective address. -/
inductive AddressBase where
  | bxSi | bxDi | bpSi | bpDi
  | si | di | bp | bx
  /-- No register: the displacement alone is the offset. -/
  | direct
deriving DecidableEq

namespace AddressBase

/-- The base that the low three bits of a ModR/M byte name. -/
def ofNumber : Fin 8 → AddressBase
  | 0 => bxSi
  | 1 => bxDi
  | 2 => bpSi
  | 3 => bpDi
  | 4 => si
  | 5 => di
  | 6 => bp
  | 7 => bx

/-- The sum of the registers. -/
def value (r : Registers) : AddressBase → Word
  | bxSi => r.bx + r.si
  | bxDi => r.bx + r.di
  | bpSi => r.bp + r.si
  | bpDi => r.bp + r.di
  | si => r.si
  | di => r.di
  | bp => r.bp
  | bx => r.bx
  | direct => 0

end AddressBase

/-- A memory location as an instruction writes it. -/
structure EffectiveAddress where
  segment : Segment
  base : AddressBase
  displacement : Word
deriving DecidableEq

/-- The offset that an effective address denotes. -/
def EffectiveAddress.offset (a : EffectiveAddress) (r : Registers) : Word :=
  a.base.value r + a.displacement

/-- A register or memory location as an instruction writes it. -/
inductive Place where
  | register (n : RegisterNumber)
  | memory (a : EffectiveAddress)
deriving DecidableEq

/-- A register or a memory location with its offset known. -/
inductive Operand where
  | register (n : RegisterNumber)
  | memory (segment : Segment) (offset : Word)
deriving DecidableEq

/-- What a place denotes for given address registers. -/
def Place.resolve (r : Registers) : Place → Operand
  | register n => .register n
  | memory a => .memory a.segment (a.offset r)

/-! ## Access -/

namespace Cpu

/-- The value of an operand. -/
def readOperand (c : Cpu) (w : Width) : Operand → w.Value
  | .register n => c.registers.read w n
  | .memory s offset => c.load w s offset

/-- Replaces the value of an operand. -/
def writeOperand (c : Cpu) (w : Width) (v : w.Value) : Operand → Cpu
  | .register n => { c with registers := c.registers.write w n v }
  | .memory s offset => c.store w s offset v

/-- The value of a place. -/
def read (c : Cpu) (w : Width) (p : Place) : w.Value := c.readOperand w (p.resolve c.registers)

/-- Replaces the value of a place. -/
def write (c : Cpu) (w : Width) (p : Place) (v : w.Value) : Cpu :=
  let operand := p.resolve c.registers
  c.writeOperand w v operand

end Cpu

/-! ## The ModR/M byte -/

/-- The three fields of a ModR/M byte. -/
structure ModRM where
  mode : Fin 4
  reg : RegisterNumber
  rm : Fin 8
deriving DecidableEq

/-- Three adjacent bits of a byte. -/
def Byte.field (b : Byte) (start : Nat) : Fin 8 := (b.extractLsb' start 3).toFin

/-- Two adjacent bits of a byte. -/
def Byte.pair (b : Byte) (start : Nat) : Fin 4 := (b.extractLsb' start 2).toFin

namespace ModRM

/-- The fields of a byte: mode in bits 6-7, register in bits 3-5, place in bits 0-2. -/
def ofByte (b : Byte) : ModRM := ⟨b.pair 6, b.field 3, b.field 0⟩

/-- Mode 3 names a register; every other mode a memory location. -/
def isRegister (m : ModRM) : Bool := m.mode == 3

/-- The form whose offset is the displacement alone takes the place of `[BP]` in mode 0. -/
def isDirect (m : ModRM) : Bool := m.mode == 0 && m.rm.val == 6

/-- The number of displacement bytes that follow. -/
def displacementLength (m : ModRM) : Nat :=
  match m.mode with
  | 0 => if m.rm.val = 6 then 2 else 0
  | 1 => 1
  | 2 => 2
  | 3 => 0

/-- Addresses based on BP lie in the stack segment, all others in the data segment. -/
def defaultSegment (m : ModRM) : Segment :=
  match m.rm with
  | 2 | 3 => .ss
  | 6 => if m.isDirect then .ds else .ss
  | _ => .ds

/-- The displacement, of which `first` and `second` are the bytes that follow. -/
def displacement (m : ModRM) (first second : Byte) : Word :=
  match m.displacementLength with
  | 0 => 0
  | 1 => first.signExtend
  | _ => Word.ofBytes first second

/-- The place that the byte names, given the two bytes that follow it and the segment that a
prefix asks for. -/
def place (m : ModRM) (override : Option Segment) (first second : Byte) : Place :=
  if m.isRegister then .register m.rm
  else
    .memory
      { segment := override.getD m.defaultSegment
        base := if m.isDirect then .direct else .ofNumber m.rm
        displacement := m.displacement first second }

end ModRM

/-- Takes a ModR/M byte and its displacement at `CS:IP`: the byte, the operand it denotes, and
the state with IP past them. -/
def Cpu.fetchModRM (c : Cpu) (override : Option Segment) : ModRM × Operand × Cpu :=
  let m := ModRM.ofByte (c.peekByte 0)
  let operand := (m.place override (c.peekByte 1) (c.peekByte 2)).resolve c.registers
  (m, operand, c.advance (1 + BitVec.ofNat 16 m.displacementLength))

end I8086
