import I8086.Addressing
import I8086.Arithmetic

/-!
# Opcodes

What the first byte of an instruction says by itself: its operation and, where that byte holds
them, the width, a register or a direction. A second byte refines the groups. Twenty-three bytes
have no meaning; seven are prefixes.
-/

namespace I8086

/-- The flag tests of the conditional jumps. -/
inductive Condition where
  | overflow
  | below
  | zero
  | belowOrEqual
  | sign
  | parity
  | less
  | lessOrEqual
deriving DecidableEq

namespace Condition

/-- The condition with a given number. -/
def ofNumber : Fin 8 → Condition
  | 0 => overflow
  | 1 => below
  | 2 => zero
  | 3 => belowOrEqual
  | 4 => sign
  | 5 => parity
  | 6 => less
  | 7 => lessOrEqual

/-- Whether the flags meet the condition. -/
def holds (f : Flags) : Condition → Bool
  | overflow => f.overflow
  | below => f.carry
  | zero => f.zero
  | belowOrEqual => f.carry || f.zero
  | sign => f.sign
  | parity => f.parity
  | less => f.sign != f.overflow
  | lessOrEqual => f.zero || f.sign != f.overflow

end Condition

/-- When a counted loop goes on, besides CX not being zero. -/
inductive LoopKind where
  | whileNotZero
  | whileZero
  | always
deriving DecidableEq

/-- The string operations. -/
inductive StringOp where
  | movs | cmps | stos | lods | scas
deriving DecidableEq

/-- The repeat prefixes. A repeated comparison goes on while ZF is as the prefix says. -/
inductive Repetition where
  | whileNotZero
  | whileZero
deriving DecidableEq

/-- The meaning of an opcode byte. -/
inductive Opcode where
  -- Prefixes
  | segmentOverride (s : Segment)
  | repeatString (r : Repetition)
  | lock
  -- Arithmetic and logic
  | alu (op : AluOp) (w : Width) (toRegister : Bool)
  | aluAccumulator (op : AluOp) (w : Width)
  | aluGroup (w : Width) (signExtended : Bool)
  | test (w : Width)
  | testAccumulator (w : Width)
  | incRegister (n : RegisterNumber)
  | decRegister (n : RegisterNumber)
  | unaryGroup (w : Width)
  | stepGroup
  | indirectGroup
  | daa | das | aaa | aas | aam | aad
  | cbw | cwd
  | shiftGroup (w : Width) (byCl : Bool)
  -- Data movement
  | mov (w : Width) (toRegister : Bool)
  | movFromSegment
  | movToSegment
  | movImmediate (w : Width) (n : RegisterNumber)
  | movImmediateGroup (w : Width)
  | movAccumulator (w : Width) (toAccumulator : Bool)
  | xchg (w : Width)
  | xchgAccumulator (n : RegisterNumber)
  | lea | les | lds | lahf | sahf | xlat
  | input (w : Width) (fromDx : Bool)
  | output (w : Width) (toDx : Bool)
  -- The stack
  | pushRegister (n : RegisterNumber)
  | popRegister (n : RegisterNumber)
  | pushSegment (s : Segment)
  | popSegment (s : Segment)
  | popGroup
  | pushf | popf
  -- Control transfer
  | jumpIf (c : Condition) (negated : Bool)
  | loop (kind : LoopKind)
  | jcxz
  | jumpShort | jumpNear | jumpFar
  | callNear | callFar
  | ret (far : Bool) (releasing : Bool)
  | int3 | int | into | iret
  -- Strings
  | string (op : StringOp) (w : Width)
  -- Flags
  | clc | stc | cmc | cli | sti | cld | std
  -- Processor control
  | wait | esc | hlt
deriving DecidableEq

namespace Opcode

/-- Bytes 00-3F: per arithmetic operation six forms of it, and a pair of stack operations, or a
segment prefix and a decimal adjustment. -/
def arithmeticBlock (b : Byte) : Option Opcode :=
  let op := AluOp.ofNumber (b.field 3)
  let w := Width.ofBit (b.getLsbD 0)
  let segment := Segment.ofBits (b.pair 3)
  match b.field 0 with
  | 4 | 5 => some (aluAccumulator op w)
  | 6 => some (if b.getLsbD 5 then segmentOverride segment else pushSegment segment)
  | 7 =>
    match b.getLsbD 5, segment with
    | true, .es => some daa
    | true, .cs => some das
    | true, .ss => some aaa
    | true, .ds => some aas
    | false, .cs => none
    | false, s => some (popSegment s)
  | _ => some (alu op w (b.getLsbD 1))

/-- Bytes 80-8F. -/
def groupBlock (b : Byte) : Option Opcode :=
  let w := Width.ofBit (b.getLsbD 0)
  match b.toNat with
  | 0x80 | 0x81 | 0x82 => some (aluGroup w false)
  | 0x83 => some (aluGroup w true)
  | 0x84 | 0x85 => some (test w)
  | 0x86 | 0x87 => some (xchg w)
  | 0x88 | 0x89 | 0x8A | 0x8B => some (mov w (b.getLsbD 1))
  | 0x8C => some movFromSegment
  | 0x8D => some lea
  | 0x8E => some movToSegment
  | _ => some popGroup

/-- Bytes 98-9F. -/
def flagBlock (b : Byte) : Option Opcode :=
  match b.toNat with
  | 0x98 => some cbw
  | 0x99 => some cwd
  | 0x9A => some callFar
  | 0x9B => some wait
  | 0x9C => some pushf
  | 0x9D => some popf
  | 0x9E => some sahf
  | _ => some lahf

/-- Bytes A0-AF. -/
def stringBlock (b : Byte) : Option Opcode :=
  let w := Width.ofBit (b.getLsbD 0)
  match b.toNat with
  | 0xA0 | 0xA1 => some (movAccumulator w true)
  | 0xA2 | 0xA3 => some (movAccumulator w false)
  | 0xA4 | 0xA5 => some (string .movs w)
  | 0xA6 | 0xA7 => some (string .cmps w)
  | 0xA8 | 0xA9 => some (testAccumulator w)
  | 0xAA | 0xAB => some (string .stos w)
  | 0xAC | 0xAD => some (string .lods w)
  | _ => some (string .scas w)

/-- Bytes C0-CF. -/
def returnBlock (b : Byte) : Option Opcode :=
  match b.toNat with
  | 0xC2 => some (ret false true)
  | 0xC3 => some (ret false false)
  | 0xC4 => some les
  | 0xC5 => some lds
  | 0xC6 => some (movImmediateGroup .byte)
  | 0xC7 => some (movImmediateGroup .word)
  | 0xCA => some (ret true true)
  | 0xCB => some (ret true false)
  | 0xCC => some int3
  | 0xCD => some int
  | 0xCE => some into
  | 0xCF => some iret
  | _ => none

/-- Bytes D0-DF. -/
def shiftBlock (b : Byte) : Option Opcode :=
  match b.toNat with
  | 0xD0 | 0xD1 | 0xD2 | 0xD3 => some (shiftGroup (.ofBit (b.getLsbD 0)) (b.getLsbD 1))
  | 0xD4 => some aam
  | 0xD5 => some aad
  | 0xD6 => none
  | 0xD7 => some xlat
  | _ => some esc

/-- Bytes E0-EF. -/
def portBlock (b : Byte) : Option Opcode :=
  let w := Width.ofBit (b.getLsbD 0)
  match b.toNat with
  | 0xE0 => some (loop .whileNotZero)
  | 0xE1 => some (loop .whileZero)
  | 0xE2 => some (loop .always)
  | 0xE3 => some jcxz
  | 0xE4 | 0xE5 => some (input w false)
  | 0xE6 | 0xE7 => some (output w false)
  | 0xE8 => some callNear
  | 0xE9 => some jumpNear
  | 0xEA => some jumpFar
  | 0xEB => some jumpShort
  | 0xEC | 0xED => some (input w true)
  | _ => some (output w true)

/-- Bytes F0-FF. -/
def controlBlock (b : Byte) : Option Opcode :=
  match b.toNat with
  | 0xF0 => some lock
  | 0xF1 => none
  | 0xF2 => some (repeatString .whileNotZero)
  | 0xF3 => some (repeatString .whileZero)
  | 0xF4 => some hlt
  | 0xF5 => some cmc
  | 0xF6 => some (unaryGroup .byte)
  | 0xF7 => some (unaryGroup .word)
  | 0xF8 => some clc
  | 0xF9 => some stc
  | 0xFA => some cli
  | 0xFB => some sti
  | 0xFC => some cld
  | 0xFD => some std
  | 0xFE => some stepGroup
  | _ => some indirectGroup

/-- The meaning of a byte, if it has one. -/
def ofByte? (b : Byte) : Option Opcode :=
  let n := b.field 0
  let block := b.toNat / 8
  if block < 0x08 then arithmeticBlock b
  else if block = 0x08 then some (incRegister n)
  else if block = 0x09 then some (decRegister n)
  else if block = 0x0A then some (pushRegister n)
  else if block = 0x0B then some (popRegister n)
  else if block < 0x0E then none
  else if block < 0x10 then some (jumpIf (.ofNumber (b.field 1)) (b.getLsbD 0))
  else if block < 0x12 then groupBlock b
  else if block = 0x12 then some (xchgAccumulator n)
  else if block = 0x13 then flagBlock b
  else if block < 0x16 then stringBlock b
  else if block = 0x16 then some (movImmediate .byte n)
  else if block = 0x17 then some (movImmediate .word n)
  else if block < 0x1A then returnBlock b
  else if block < 0x1C then shiftBlock b
  else if block < 0x1E then portBlock b
  else controlBlock b

/-- Prefixes modify the instruction after them. -/
def isPrefix : Opcode → Bool
  | segmentOverride _ | repeatString _ | lock => true
  | _ => false

end Opcode

end I8086
