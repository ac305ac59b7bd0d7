import I8086.Instruction

/-!
# Decoding

The bytes at `CS:IP` are a function from distances to bytes. `Prefixes.scan` reads prefix bytes
off its front; `Instruction.decode?` reads one instruction that follows its opcode, and says how
many bytes it took. Both depend on the bytes alone, not on registers, flags or memory elsewhere.
-/

namespace I8086

/-- The instruction stream from some point on: the byte at each distance. -/
abbrev Code := Nat → Byte

namespace Code

/-- The stream from a later point on. -/
def drop (code : Code) (k : Nat) : Code := fun i => code (k + i)

/-- The word at a distance. -/
def word (code : Code) (k : Nat) : Word := Word.ofBytes (code k) (code (k + 1))

/-- The value at a distance, in either width. -/
def value (code : Code) : (w : Width) → Nat → w.Value
  | .byte, k => code k
  | .word, k => code.word k

end Code

/-- The effect of the prefixes read so far. Of several of a kind the last one counts. -/
structure Prefixes where
  segment : Option Segment := none
  repetition : Option Repetition := none
deriving DecidableEq

namespace Prefixes

/-- Adds a prefix; any other opcode has no effect. -/
def add (p : Prefixes) : Opcode → Prefixes
  | .segmentOverride s => { p with segment := some s }
  | .repeatString r => { p with repetition := some r }
  | _ => p

/-- The segment of a data operand that lies in the data segment by default. -/
def dataSegment (p : Prefixes) : Segment := p.segment.getD .ds

/-- Whether a repeat prefix of either kind is present. -/
def repeats (p : Prefixes) : Bool := p.repetition.isSome

/-- Reads at most `room` prefix bytes. The answer holds their number, the prefixes with them
added, and whether a byte that is no prefix ended the scan. -/
def scan (code : Code) : (room : Nat) → Prefixes → Nat × Prefixes × Bool
  | 0, p => (0, p, false)
  | room + 1, p =>
    match Opcode.ofByte? (code 0) with
    | some op =>
      if op.isPrefix then
        let (n, q, ended) := scan (code.drop 1) room (p.add op)
        (n + 1, q, ended)
      else (0, p, true)
    | none => (0, p, true)

end Prefixes

namespace Instruction

/-- The operations on one operand. The multiplying and dividing ones combine it with the
accumulator; a repeat prefix negates the signed ones. -/
def ofUnary (w : Width) (p : Prefixes) (target : Place) (immediate : w.Value) :
    RegisterNumber → Instruction
  | 0 | 1 => test w target (.immediate immediate)
  | 2 => not w target
  | 3 => neg w target
  | 4 => mul w target
  | 5 => imul w target p.repeats
  | 6 => div w target
  | 7 => idiv w target p.repeats

/-- The instructions that a ModR/M byte completes. `next` is the distance of the byte after its
displacement; the answer's second part is the distance at which the instruction ends. -/
def decodeModRM? (op : Opcode) (p : Prefixes) (reg : RegisterNumber) (place : Place)
    (code : Code) (next : Nat) : Option (Instruction × Nat) :=
  match op with
  | .alu op w true => some (alu w op (.register reg) (.place place), next)
  | .alu op w false => some (alu w op place (.place (.register reg)), next)
  | .aluGroup .byte _ => some (alu .byte (.ofNumber reg) place (.immediate (code next)), next + 1)
  | .aluGroup .word true =>
      some (alu .word (.ofNumber reg) place (.immediate (code next).signExtend), next + 1)
  | .aluGroup .word false =>
      some (alu .word (.ofNumber reg) place (.immediate (code.word next)), next + 2)
  | .test w => some (test w place (.place (.register reg)), next)
  | .unaryGroup w =>
      let taken := if reg.val ≤ 1 then w.bytes else 0
      some (ofUnary w p place (code.value w next) reg, next + taken)
  | .stepGroup =>
    match reg with
    | 0 => some (inc .byte place, next)
    | 1 => some (dec .byte place, next)
    | _ => none
  | .indirectGroup =>
    match reg, place with
    | 0, _ => some (inc .word place, next)
    | 1, _ => some (dec .word place, next)
    | 2, _ => some (callTo place, next)
    | 3, .memory a => some (callToPointer a, next)
    | 4, _ => some (jumpTo place, next)
    | 5, .memory a => some (jumpToPointer a, next)
    | 6, _ => some (push place, next)
    | _, _ => none
  | .shiftGroup w byCl => some (shift w (.ofNumber reg) place (if byCl then .cl else .one), next)
  | .mov w true => some (mov w (.register reg) (.place place), next)
  | .mov w false => some (mov w place (.place (.register reg)), next)
  | .movFromSegment => (Segment.ofNumber? reg).map fun s => (movFromSegment place s, next)
  | .movToSegment => (Segment.ofNumber? reg).map fun s => (movToSegment s place, next)
  | .movImmediateGroup w =>
      if reg.val = 0 then some (mov w place (.immediate (code.value w next)), next + w.bytes)
      else none
  | .xchg w => some (xchg w place (.register reg), next)
  | .lea =>
    match place with
    | .memory a => some (lea reg a, next)
    | .register _ => none
  | .les =>
    match place with
    | .memory a => some (loadPointer .es reg a, next)
    | .register _ => none
  | .lds =>
    match place with
    | .memory a => some (loadPointer .ds reg a, next)
    | .register _ => none
  | .popGroup => if reg.val = 0 then some (pop place, next) else none
  | .esc => some (esc, next)
  | _ => none

/-- The instruction that begins with an opcode, with `code` the bytes after the opcode and the
prefixes given, and the number of those bytes that belong to it. There is none if the bytes do not
complete the opcode to an instruction. -/
def decode? (op : Opcode) (p : Prefixes) (code : Code) : Option (Instruction × Nat) :=
  let accumulator := Place.register .accumulator
  let direct : Place := .memory ⟨p.dataSegment, .direct, code.word 0⟩
  match op with
  | .segmentOverride _ | .repeatString _ | .lock => none
  | .aluAccumulator op w => some (alu w op accumulator (.immediate (code.value w 0)), w.bytes)
  | .testAccumulator w => some (test w accumulator (.immediate (code.value w 0)), w.bytes)
  | .incRegister n => some (inc .word (.register n), 0)
  | .decRegister n => some (dec .word (.register n), 0)
  | .daa => some (daa, 0)
  | .das => some (das, 0)
  | .aaa => some (aaa, 0)
  | .aas => some (aas, 0)
  | .aam => some (aam (code 0), 1)
  | .aad => some (aad (code 0), 1)
  | .cbw => some (cbw, 0)
  | .cwd => some (cwd, 0)
  | .movImmediate w n => some (mov w (.register n) (.immediate (code.value w 0)), w.bytes)
  | .movAccumulator w true => some (mov w accumulator (.place direct), 2)
  | .movAccumulator w false => some (mov w direct (.place accumulator), 2)
  | .xchgAccumulator n => some (xchg .word (.register n) accumulator, 0)
  | .lahf => some (lahf, 0)
  | .sahf => some (sahf, 0)
  | .xlat => some (xlat p.dataSegment, 0)
  | .input w true => some (input w .dx, 0)
  | .input w false => some (input w (.fixed (code 0)), 1)
  | .output w true => some (output w .dx, 0)
  | .output w false => some (output w (.fixed (code 0)), 1)
  | .pushRegister n => some (push (.register n), 0)
  | .popRegister n => some (pop (.register n), 0)
  | .pushSegment s => some (pushSegment s, 0)
  | .popSegment s => some (popSegment s, 0)
  | .pushf => some (pushf, 0)
  | .popf => some (popf, 0)
  | .jumpIf c negated => some (jumpIf c negated (code 0).signExtend, 1)
  | .loop kind => some (loop kind (code 0).signExtend, 1)
  | .jcxz => some (jcxz (code 0).signExtend, 1)
  | .jumpShort => some (jump (code 0).signExtend, 1)
  | .jumpNear => some (jump (code.word 0), 2)
  | .jumpFar => some (jumpFar (code.word 2) (code.word 0), 4)
  | .callNear => some (call (code.word 0), 2)
  | .callFar => some (callFar (code.word 2) (code.word 0), 4)
  | .ret far true => some (ret far (code.word 0), 2)
  | .ret far false => some (ret far 0, 0)
  | .int3 => some (interrupt 3, 0)
  | .int => some (interrupt (code 0), 1)
  | .into => some (into, 0)
  | .iret => some (iret, 0)
  | .string op w => some (string w op p.dataSegment p.repetition, 0)
  | .clc => some (setFlag .carry false, 0)
  | .stc => some (setFlag .carry true, 0)
  | .cmc => some (cmc, 0)
  | .cli => some (setFlag .interrupt false, 0)
  | .sti => some (setFlag .interrupt true, 0)
  | .cld => some (setFlag .direction false, 0)
  | .std => some (setFlag .direction true, 0)
  | .wait => some (wait, 0)
  | .hlt => some (hlt, 0)
  | op =>
    let m := ModRM.ofByte (code 0)
    decodeModRM? op p m.reg (m.place p.segment (code 1) (code 2)) code (1 + m.displacementLength)

end Instruction

/-- What stands at `CS:IP`. -/
inductive Fetched where
  /-- So many prefixes that the step ends with them. -/
  | prefixes (p : Prefixes) (length : Nat)
  /-- No instruction; the byte is the first that is no prefix. -/
  | undefined (opcode : Byte)
  /-- An instruction and its length, prefixes included. -/
  | instruction (i : Instruction) (length : Nat)

/-- The number of prefix bytes that one step takes at most. -/
def maxPrefixRun : Nat := 16

/-- Reads prefixes and an instruction, after prefixes that were read before. -/
def Fetched.ofCode (code : Code) (pending : Prefixes) : Fetched :=
  let (n, p, ended) := Prefixes.scan code maxPrefixRun pending
  if ended then
    let opcode := code n
    match (Opcode.ofByte? opcode).bind fun op => Instruction.decode? op p (code.drop (n + 1)) with
    | some (i, length) => .instruction i (n + 1 + length)
    | none => .undefined opcode
  else .prefixes p n

end I8086
