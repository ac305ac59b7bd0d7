import I8086.Instruction
import I8086.Instruction.Decode

/-!
# String instructions

One element moves between the source, `SI` in the data segment or its override, the destination,
always `DI` in the extra segment, and the accumulator. Afterwards the index registers that took
part move to the next element, up or down as DF says. A repeat prefix iterates this, at most as
many times as CX counts; the comparing operations stop early by ZF.
-/

namespace I8086.Cpu

/-- The distance to the next element. -/
def stride (c : Cpu) (w : Width) : Word :=
  let size := BitVec.ofNat 16 w.bytes
  if c.flags.direction then -size else size

/-- Moves SI to the next element. -/
def advanceSource (c : Cpu) (w : Width) : Cpu :=
  let d := c.stride w
  { c with registers := { c.registers with si := c.registers.si + d } }

/-- Moves DI to the next element. -/
def advanceTarget (c : Cpu) (w : Width) : Cpu :=
  let d := c.stride w
  { c with registers := { c.registers with di := c.registers.di + d } }

/-- Sets the flags as the comparison of two values does. -/
def compare {n : Nat} (c : Cpu) (x y : BitVec n) : Cpu :=
  { c with flags := (AluOp.cmp.apply c.flags x y).2 }

/-- One element of a string operation. -/
def stringElement (c : Cpu) (w : Width) (op : StringOp) (source : Segment) : Cpu :=
  let si := c.registers.si
  let di := c.registers.di
  match op with
  | .movs =>
    let v := c.load w source si
    ((c.store w .es di v).advanceSource w).advanceTarget w
  | .cmps =>
    let x := c.load w source si
    let y := c.load w .es di
    ((c.compare x y).advanceSource w).advanceTarget w
  | .stos =>
    let v := c.registers.read w .accumulator
    (c.store w .es di v).advanceTarget w
  | .lods =>
    let v := c.load w source si
    (c.writeOperand w v (.register .accumulator)).advanceSource w
  | .scas =>
    let x := c.registers.read w .accumulator
    let y := c.load w .es di
    (c.compare x y).advanceTarget w

end I8086.Cpu

namespace I8086

/-- Whether the operation compares, so that a repeated one heeds ZF. -/
def StringOp.compares : StringOp → Bool
  | .cmps | .scas => true
  | _ => false

/-- Whether a comparison with this outcome lets the repetition go on. -/
def Repetition.continues (r : Repetition) (zero : Bool) : Bool :=
  match r with
  | .whileZero => zero
  | .whileNotZero => !zero

namespace Cpu

/-- At most `count` elements, with CX counting down. -/
def stringElements (w : Width) (op : StringOp) (source : Segment) (r : Repetition) :
    (count : Nat) → Cpu → Cpu
  | 0, c => c
  | count + 1, c =>
    let c := c.stringElement w op source
    let c := { c with registers := { c.registers with cx := c.registers.cx - 1 } }
    if op.compares && !r.continues c.flags.zero then c
    else stringElements w op source r count c

/-- One element, the count in CX, and the rest unless a comparison has ended the repetition. -/
theorem stringElements_succ (w : Width) (op : StringOp) (source : Segment) (r : Repetition)
    (count : Nat) (c : Cpu) :
    stringElements w op source r (count + 1) c =
      let d := c.stringElement w op source
      let d := d.setRegister .cx (d.registers.cx - 1)
      if op.compares && !r.continues d.flags.zero then d
      else stringElements w op source r count d := rfl

/-- A string operation with its repetition, which runs to its end. -/
def string (c : Cpu) (w : Width) (op : StringOp) (source : Segment)
    (repetition : Option Repetition) : Cpu :=
  match repetition with
  | none => c.stringElement w op source
  | some r =>
    let count := c.registers.cx.toNat
    stringElements w op source r count c

end Cpu

end I8086
