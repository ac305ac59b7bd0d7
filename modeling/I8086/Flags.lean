import I8086.Word

/-!
# The status flags

Nine flags, kept as nine Booleans. The flag word places them on fixed bits; its other bits carry
no state, so packing and unpacking are inverse to each other (`unpack_pack`). Three views exist:
the plain word, the word that is stored on the stack (reserved bits read as one), and the low
byte that `LAHF` and `SAHF` exchange with `AH`.
-/

namespace I8086

/-- The names of the flags. -/
inductive Flag where
  | carry
  | parity
  | aux
  | zero
  | sign
  | trap
  | interrupt
  | direction
  | overflow
deriving DecidableEq

/-- A setting of the nine flags; all clear unless said otherwise. -/
@[ext]
structure Flags where
  carry : Bool := false
  parity : Bool := false
  aux : Bool := false
  zero : Bool := false
  sign : Bool := false
  trap : Bool := false
  interrupt : Bool := false
  direction : Bool := false
  overflow : Bool := false
deriving DecidableEq

namespace Flags

/-- The power-on state. -/
def clear : Flags := {}

/-- The value of one flag. -/
def get (f : Flags) : Flag → Bool
  | .carry => f.carry
  | .parity => f.parity
  | .aux => f.aux
  | .zero => f.zero
  | .sign => f.sign
  | .trap => f.trap
  | .interrupt => f.interrupt
  | .direction => f.direction
  | .overflow => f.overflow

/-- The flags with one of them replaced. -/
def set (f : Flags) (flag : Flag) (v : Bool) : Flags :=
  match flag with
  | .carry => { f with carry := v }
  | .parity => { f with parity := v }
  | .aux => { f with aux := v }
  | .zero => { f with zero := v }
  | .sign => { f with sign := v }
  | .trap => { f with trap := v }
  | .interrupt => { f with interrupt := v }
  | .direction => { f with direction := v }
  | .overflow => { f with overflow := v }

/-- The flags with one of them inverted. -/
def flip (f : Flags) (flag : Flag) : Flags := f.set flag (!f.get flag)

@[simp] theorem get_set_self (f : Flags) (flag : Flag) (v : Bool) :
    (f.set flag v).get flag = v := by
  cases flag <;> rfl

theorem get_set_ne (f : Flags) {flag other : Flag} (v : Bool) (h : other ≠ flag) :
    (f.set flag v).get other = f.get other := by
  cases flag <;> cases other <;> simp_all [get, set]

/-- The flag word: OF, DF, IF, TF, SF, ZF, AF, PF and CF on bits 11 to 6, 4, 2 and 0. -/
def pack (f : Flags) : Word :=
  0#4 ++ BitVec.ofBool f.overflow ++ BitVec.ofBool f.direction ++ BitVec.ofBool f.interrupt ++
    BitVec.ofBool f.trap ++ BitVec.ofBool f.sign ++ BitVec.ofBool f.zero ++ 0#1 ++
    BitVec.ofBool f.aux ++ 0#1 ++ BitVec.ofBool f.parity ++ 0#1 ++ BitVec.ofBool f.carry

/-- The flags that a flag word holds; its other bits are ignored. -/
def unpack (w : Word) : Flags where
  carry := w.getLsbD 0
  parity := w.getLsbD 2
  aux := w.getLsbD 4
  zero := w.getLsbD 6
  sign := w.getLsbD 7
  trap := w.getLsbD 8
  interrupt := w.getLsbD 9
  direction := w.getLsbD 10
  overflow := w.getLsbD 11

@[simp] theorem unpack_pack (f : Flags) : unpack f.pack = f := by
  ext <;> simp only [unpack, pack, BitVec.getLsbD_append, BitVec.getLsbD_ofBool] <;> simp

/-- The flag word as it goes onto the stack: bits 1 and 12-15 read as one. -/
def pushed (f : Flags) : Word := f.pack ||| 0xF002#16

@[simp] theorem unpack_pushed (f : Flags) : unpack f.pushed = f := by
  conv => rhs; rw [← unpack_pack f]
  ext <;> simp only [unpack, pushed, BitVec.getLsbD_or] <;> simp

/-- SF, ZF, AF, PF and CF on their bits of the low byte. -/
def packLow (f : Flags) : Byte := f.pack.low

/-- Takes SF, ZF, AF, PF and CF from a byte and keeps the other four. -/
def unpackLow (f : Flags) (b : Byte) : Flags :=
  { f with
    carry := b.getLsbD 0
    parity := b.getLsbD 2
    aux := b.getLsbD 4
    zero := b.getLsbD 6
    sign := b.getLsbD 7 }

/-- The letters of the set flags, from overflow down to carry, with a dash for each clear one. -/
def letters (f : Flags) : String :=
  let letter (flag : Flag) (c : Char) := if f.get flag then c else '-'
  String.ofList
    [letter .overflow 'O', letter .direction 'D', letter .interrupt 'I', letter .trap 'T',
      letter .sign 'S', letter .zero 'Z', letter .aux 'A', letter .parity 'P', letter .carry 'C']

end Flags

end I8086
