import I8086.Opcode
import I8086.Port
import I8086.Shift

/-!
# Instructions

An instruction with everything in it that its bytes decide: operands, immediate values, jump
distances, and what its prefixes do to it. Encodings that mean the same give the same
instruction; only their lengths differ. A segment prefix has already chosen the segment of the
data operand, and a repeat prefix is part of those instructions that heed one.
-/

namespace I8086

/-- A second operand: a place or an immediate value. -/
inductive Source (w : Width) where
  | place (p : Place)
  | immediate (v : w.Value)

/-- How far a shift goes. -/
inductive ShiftCount where
  | one
  | cl
deriving DecidableEq

/-- An instruction as the processor carries it out: operands, widths and the effect of its prefixes
are settled, so that encodings with one meaning are one value. -/
inductive Instruction where
  -- Arithmetic and logic
  | alu (w : Width) (op : AluOp) (target : Place) (source : Source w)
  | test (w : Width) (left : Place) (right : Source w)
  | inc (w : Width) (target : Place)
  | dec (w : Width) (target : Place)
  | not (w : Width) (target : Place)
  | neg (w : Width) (target : Place)
  | mul (w : Width) (source : Place)
  | imul (w : Width) (source : Place) (negated : Bool)
  | div (w : Width) (source : Place)
  | idiv (w : Width) (source : Place) (negated : Bool)
  | shift (w : Width) (op : ShiftOp) (target : Place) (count : ShiftCount)
  | daa
  | das
  | aaa
  | aas
  | aam (base : Byte)
  | aad (base : Byte)
  | cbw
  | cwd
  -- Data movement
  | mov (w : Width) (target : Place) (source : Source w)
  | movFromSegment (target : Place) (s : Segment)
  | movToSegment (s : Segment) (source : Place)
  | xchg (w : Width) (left right : Place)
  | lea (n : RegisterNumber) (a : EffectiveAddress)
  | loadPointer (s : Segment) (n : RegisterNumber) (a : EffectiveAddress)
  | lahf
  | sahf
  | xlat (s : Segment)
  | input (w : Width) (port : Port)
  | output (w : Width) (port : Port)
  -- The stack
  | push (source : Place)
  | pop (target : Place)
  | pushSegment (s : Segment)
  | popSegment (s : Segment)
  | pushf
  | popf
  -- Control transfer
  | jumpIf (c : Condition) (negated : Bool) (distance : Word)
  | loop (kind : LoopKind) (distance : Word)
  | jcxz (distance : Word)
  | jump (distance : Word)
  | jumpFar (cs ip : Word)
  | jumpTo (target : Place)
  | jumpToPointer (a : EffectiveAddress)
  | call (distance : Word)
  | callFar (cs ip : Word)
  | callTo (target : Place)
  | callToPointer (a : EffectiveAddress)
  | ret (far : Bool) (release : Word)
  | interrupt (vector : Byte)
  | into
  | iret
  -- Strings
  | string (w : Width) (op : StringOp) (source : Segment) (repetition : Option Repetition)
  -- Flags
  | setFlag (flag : Flag) (v : Bool)
  | cmc
  -- Processor control
  | wait
  | esc
  | hlt

end I8086
