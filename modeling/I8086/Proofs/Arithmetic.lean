import I8086.Execution
import I8086.Proofs.Access
import I8086.Proofs.Sum

/-!
# What the arithmetic instructions calculate

An operation stands either for a calculation with integers or for a function of single bits. Its
meaning fixes the result and every flag: the integer, found once from the operands without a sign,
once from the signed ones and once from their lowest digits, tells by whether it fits what CF, OF
and AF are, and what remains of it in the operands' width tells ZF, SF and PF. So result and flags
are not only as the meaning says, they are the only ones that are.
-/

namespace I8086

/-- What an operation makes of two numbers, or of each pair of their bits. -/
inductive Meaning where
  | number (exact : Int → Int → Int)
  | bitwise (bit : Bool → Bool → Bool)

namespace AluOp

/-- The calculation that an operation stands for; only two of them heed the carry. -/
def meaning (carry : Bool) : AluOp → Meaning
  | add => .number fun x y => x + y
  | adc => .number fun x y => x + y + carry.toNat
  | sub | cmp => .number fun x y => x - y
  | sbb => .number fun x y => x - y - carry.toNat
  | and => .bitwise fun a b => a && b
  | or => .bitwise fun a b => a || b
  | xor => .bitwise fun a b => a ^^ b

end AluOp

section Specification

variable {n : Nat}

/-- The number of ones in the low byte. -/
def lowOnes (v : BitVec n) : Nat := (List.range 8).countP v.getLsbD

/-- ZF, SF and PF as a result has them. -/
structure Flags.Describes (g : Flags) (v : BitVec n) : Prop where
  zero : g.zero = true ↔ v.toNat = 0
  sign : g.sign = true ↔ 2 ^ (n - 1) ≤ v.toNat
  parity : g.parity = true ↔ lowOnes v % 2 = 0

/-- Result, CF, OF and AF of a calculation with integers. -/
structure Meaning.Counts (exact : Int → Int → Int) (x y v : BitVec n) (g : Flags) : Prop where
  value : (v.toNat : Int) = exact x.toNat y.toNat % 2 ^ n
  carry : g.carry = true ↔ ¬IsUnsigned n (exact x.toNat y.toNat)
  overflow : g.overflow = true ↔ ¬IsSigned n (exact x.toInt y.toInt)
  aux : g.aux = true ↔ ¬IsUnsigned 4 (exact (x.toNat % 16 : Nat) (y.toNat % 16 : Nat))

/-- Result, CF, OF and AF of an operation on single bits, which keeps AF. -/
structure Meaning.Combines (bit : Bool → Bool → Bool) (f : Flags) (x y v : BitVec n)
    (g : Flags) : Prop where
  value : ∀ i < n, v.getLsbD i = bit (x.getLsbD i) (y.getLsbD i)
  carry : g.carry = false
  overflow : g.overflow = false
  aux : g.aux = f.aux

/-- Result, CF, OF and AF as an operation's meaning has them. -/
def Meaning.Computes (f : Flags) (x y v : BitVec n) (g : Flags) : Meaning → Prop
  | number exact => Counts exact x y v g
  | bitwise bit => Combines bit f x y v g

/-- Operands `x` and `y` give the result `v` and turn the flags `f` into `g`. -/
structure Meaning.Gives (m : Meaning) (f : Flags) (x y v : BitVec n) (g : Flags) : Prop where
  computes : m.Computes f x y v g
  describes : g.Describes v
  trap : g.trap = f.trap
  interrupt : g.interrupt = f.interrupt
  direction : g.direction = f.direction

end Specification

/-! ## Flags of a result -/

section Results

variable {n : Nat}

/-- A parity that is inverted at each hit tells whether there is an even number of them. -/
theorem foldl_bne (p : Nat → Bool) (l : List Nat) (even : Bool) :
    l.foldl (fun even i => even != p i) even = (even == (l.countP p % 2 == 0)) := by
  induction l generalizing even with
  | nil => cases even <;> rfl
  | cons i l ih =>
      rw [List.foldl_cons, ih, List.countP_cons]
      have next : ((l.countP p + 1) % 2 == 0) = !(l.countP p % 2 == 0) := by
        rcases Nat.mod_two_eq_zero_or_one (l.countP p) with h | h
        · simp [Nat.add_mod, h]
        · simp [Nat.add_mod, h]
      cases hit : p i with
      | false => rw [if_neg Bool.false_ne_true, Nat.add_zero, Bool.bne_false]
      | true =>
          rw [if_pos rfl, next, Bool.bne_true]
          cases even <;> cases (l.countP p % 2 == 0) <;> rfl

theorem evenParity_iff (v : BitVec n) : evenParity v = true ↔ lowOnes v % 2 = 0 := by
  rw [evenParity, foldl_bne, lowOnes, beq_iff_eq, eq_comm, beq_iff_eq]

/-- Flags that take ZF, SF and PF from a result describe it. -/
theorem Flags.Describes.of_eq {g : Flags} {v : BitVec n} (zero : g.zero = (v == 0#n))
    (sign : g.sign = v.msb) (parity : g.parity = evenParity v) : g.Describes v where
  zero := by rw [zero, beq_iff_eq, ← BitVec.toNat_inj, BitVec.toNat_zero]
  sign := by rw [sign, BitVec.msb_eq_decide, decide_eq_true_eq]
  parity := by rw [parity, evenParity_iff]

end Results

/-! ## The eight operations -/

namespace Meaning

variable {n : Nat} (f : Flags) (x y : BitVec n)

/-- The flags of a sum or difference whose four parts are those of an integer. -/
theorem gives_sum {exact : Int → Int → Int} (s : Sum n)
    (counts : Counts exact x y s.value (f.withSum x y s)) :
    (number exact).Gives f x y s.value (f.withSum x y s) :=
  ⟨counts, .of_eq rfl rfl rfl, rfl, rfl, rfl⟩

/-- The flags of an operation on single bits. -/
theorem gives_logical {bit : Bool → Bool → Bool} (v : BitVec n)
    (value : ∀ i < n, v.getLsbD i = bit (x.getLsbD i) (y.getLsbD i)) :
    (bitwise bit).Gives f x y v (f.withLogical v) :=
  ⟨⟨value, rfl, rfl, rfl⟩, .of_eq rfl rfl rfl, rfl, rfl, rfl⟩

theorem counts_add (wide : 4 < n) (carry : Bool) :
    Counts (fun a b => a + b + carry.toNat) x y (Sum.add x y carry).value
      (f.withSum x y (.add x y carry)) where
  value := Sum.toNat_value_add x y carry
  carry := Sum.carry_add_iff x y carry
  overflow := Sum.overflow_add_iff x y carry (Nat.zero_lt_of_lt wide)
  aux := Sum.auxCarry_add_iff x y carry wide

theorem counts_sub (wide : 4 < n) (borrow : Bool) :
    Counts (fun a b => a - b - borrow.toNat) x y (Sum.sub x y borrow).value
      (f.withSum x y (.sub x y borrow)) where
  value := Sum.toNat_value_sub x y borrow
  carry := Sum.carry_sub_iff x y borrow
  overflow := Sum.overflow_sub_iff x y borrow (Nat.zero_lt_of_lt wide)
  aux := Sum.auxCarry_sub_iff x y borrow wide

/-- Without a carry nothing is added to the sum of two numbers. -/
theorem counts_add_zero (wide : 4 < n) :
    Counts (fun a b => a + b) x y (Sum.add x y false).value
      (f.withSum x y (.add x y false)) := by
  have counts := counts_add f x y wide false
  simp only [Bool.toNat_false, Nat.cast_zero, add_zero] at counts
  exact counts

theorem counts_sub_zero (wide : 4 < n) :
    Counts (fun a b => a - b) x y (Sum.sub x y false).value
      (f.withSum x y (.sub x y false)) := by
  have counts := counts_sub f x y wide false
  simp only [Bool.toNat_false, Nat.cast_zero, sub_zero] at counts
  exact counts

end Meaning

namespace AluOp

variable {n : Nat} (f : Flags) (x y : BitVec n)

/-- Each of the eight operations calculates what it stands for. -/
theorem gives_apply (wide : 4 < n) (op : AluOp) :
    (op.meaning f.carry).Gives f x y (op.apply f x y).1 (op.apply f x y).2 := by
  cases op with
  | add => exact Meaning.gives_sum f x y _ (Meaning.counts_add_zero f x y wide)
  | adc => exact Meaning.gives_sum f x y _ (Meaning.counts_add f x y wide f.carry)
  | sub | cmp => exact Meaning.gives_sum f x y _ (Meaning.counts_sub_zero f x y wide)
  | sbb => exact Meaning.gives_sum f x y _ (Meaning.counts_sub f x y wide f.carry)
  | or => exact Meaning.gives_logical f x y _ fun i _ => BitVec.getLsbD_or
  | and => exact Meaning.gives_logical f x y _ fun i _ => BitVec.getLsbD_and
  | xor => exact Meaning.gives_logical f x y _ fun i _ => BitVec.getLsbD_xor

end AluOp

/-! ## Nothing is left open -/

section Unique

variable {n : Nat} {f g g' : Flags} {x y v v' : BitVec n}

/-- Flags that describe one result agree in ZF, SF and PF. -/
theorem Flags.Describes.unique (h : g.Describes v) (h' : g'.Describes v) :
    g.zero = g'.zero ∧ g.sign = g'.sign ∧ g.parity = g'.parity :=
  ⟨Bool.eq_iff_iff.mpr (h.zero.trans h'.zero.symm),
    Bool.eq_iff_iff.mpr (h.sign.trans h'.sign.symm),
    Bool.eq_iff_iff.mpr (h.parity.trans h'.parity.symm)⟩

namespace Meaning

/-- A meaning decides the result, CF, OF and AF. -/
theorem Computes.unique {m : Meaning} (h : m.Computes f x y v g) (h' : m.Computes f x y v' g') :
    v = v' ∧ g.carry = g'.carry ∧ g.overflow = g'.overflow ∧ g.aux = g'.aux := by
  cases m with
  | number exact =>
      have value : (v.toNat : Int) = v'.toNat := h.value.trans h'.value.symm
      exact ⟨BitVec.eq_of_toNat_eq (Int.ofNat_inj.mp value),
        Bool.eq_iff_iff.mpr (h.carry.trans h'.carry.symm),
        Bool.eq_iff_iff.mpr (h.overflow.trans h'.overflow.symm),
        Bool.eq_iff_iff.mpr (h.aux.trans h'.aux.symm)⟩
  | bitwise bit =>
      exact ⟨BitVec.eq_of_getLsbD_eq fun i hi => (h.value i hi).trans (h'.value i hi).symm,
        h.carry.trans h'.carry.symm, h.overflow.trans h'.overflow.symm, h.aux.trans h'.aux.symm⟩

/-- A meaning decides the result and all flags. -/
theorem Gives.unique {m : Meaning} (h : m.Gives f x y v g) (h' : m.Gives f x y v' g') :
    (v, g) = (v', g') := by
  obtain ⟨rfl, carry, overflow, aux⟩ := h.computes.unique h'.computes
  obtain ⟨zero, sign, parity⟩ := h.describes.unique h'.describes
  have flags : g = g' := Flags.ext carry parity aux zero sign (h.trap.trans h'.trap.symm)
    (h.interrupt.trans h'.interrupt.symm) (h.direction.trans h'.direction.symm) overflow
  rw [flags]

end Meaning

/-- An operation has this result and these flags exactly if they are what it stands for. -/
theorem AluOp.apply_eq_iff (wide : 4 < n) (op : AluOp) :
    op.apply f x y = (v, g) ↔ (op.meaning f.carry).Gives f x y v g := by
  constructor
  · intro eq
    have gives := gives_apply f x y wide op
    rw [eq] at gives
    exact gives
  · intro gives
    exact (gives_apply f x y wide op).unique gives

end Unique

/-! ## Instructions -/

/-- The instructions that calculate with a place and set flags by the result: the eight operations
and `TEST` with a second operand, and those that know what the second operand is. -/
inductive Calculation (w : Width) where
  | alu (op : AluOp) (source : Source w)
  | test (source : Source w)
  | inc
  | dec
  | neg

namespace Calculation

variable {w : Width}

/-- The calculation as an instruction on a place. -/
def instruction (target : Place) : Calculation w → Instruction
  | alu op source => .alu w op target source
  | test source => .test w target source
  | inc => .inc w target
  | dec => .dec w target
  | neg => .neg w target

/-- What is calculated. -/
def meaning (carry : Bool) : Calculation w → Meaning
  | alu op _ => op.meaning carry
  | test _ => .bitwise fun a b => a && b
  | inc => .number fun x y => x + y
  | dec | neg => .number fun x y => x - y

/-- What it is calculated from: as a rule the place and the second operand, in this order. -/
def operands (c : Cpu) (target : Place) : Calculation w → w.Value × w.Value
  | alu _ source | test source => (c.read w target, c.readSource w source)
  | inc | dec => (c.read w target, 1)
  | neg => (0, c.read w target)

/-- Which flags the calculation leaves: counting by one keeps CF. -/
def flags (before calculated : Flags) : Calculation w → Flags
  | inc | dec => { calculated with carry := before.carry }
  | alu _ _ | test _ | neg => calculated

/-- `CMP` and `TEST` drop the result. -/
def isWritten : Calculation w → Bool
  | alu op _ => !op.isComparison
  | test _ => false
  | inc | dec | neg => true

/-- Puts the flags and, where it is not dropped, the result into their places. -/
def finish (c : Cpu) (target : Place) (v : w.Value) (calculated : Flags) (k : Calculation w) :
    Cpu :=
  let c := { c with flags := k.flags c.flags calculated }
  if k.isWritten then c.write w target v else c

end Calculation

theorem Width.four_lt_bits (w : Width) : 4 < w.bits := by
  cases w <;> decide

namespace Registers

@[simp] theorem read_write (r : Registers) (w : Width) (n : RegisterNumber) (v : w.Value) :
    (r.write w n v).read w n = v := by
  cases w with
  | byte =>
      simp only [read, write, byte, setByte]
      split
      · exact high_setHigh r n.whole v
      · exact low_setLow r n.whole v
  | word => exact get_set_self r n.register v

end Registers

namespace Cpu

/-- A place holds what has been written there, since writing to memory moves no address. -/
@[simp] theorem read_write (c : Cpu) (w : Width) (p : Place) (v : w.Value) :
    (c.write w p v).read w p = v := by
  cases p with
  | register n => exact Registers.read_write c.registers w n v
  | memory a =>
      cases w with
      | byte => exact Memory.get_set_self c.memory _ v
      | word => exact readWord_writeWord c a.segment (a.offset c.registers) v

end Cpu

namespace Calculation

variable {w : Width} (c : Cpu) (target : Place)

/-- Every calculating instruction leaves the result and the flags of its calculation. -/
theorem execute_instruction (k : Calculation w) :
    ∃ v g, (k.meaning c.flags.carry).Gives c.flags (k.operands c target).1
        (k.operands c target).2 v g ∧
      c.execute (k.instruction target) = (k.finish c target v g, .next) := by
  have wide := w.four_lt_bits
  cases k with
  | alu op source =>
      refine ⟨_, _, AluOp.gives_apply c.flags _ _ wide op, ?_⟩
      cases op <;> rfl
  | test source => exact ⟨_, _, AluOp.gives_apply c.flags _ _ wide .and, rfl⟩
  | inc => exact ⟨_, _, AluOp.gives_apply c.flags _ _ wide .add, rfl⟩
  | dec => exact ⟨_, _, AluOp.gives_apply c.flags _ _ wide .sub, rfl⟩
  | neg => exact ⟨_, _, AluOp.gives_apply c.flags _ _ wide .sub, rfl⟩

/-- The place holds the result afterwards, unless that was dropped. -/
theorem read_finish (v : w.Value) (g : Flags) (k : Calculation w) :
    (k.finish c target v g).read w target = if k.isWritten then v else c.read w target := by
  rw [finish]
  split
  · exact Cpu.read_write _ w target v
  · rfl

end Calculation

/-- In both widths the eight operations have the results and the flags that integer arithmetic and
single bits define, and no others; and the instructions leave these results and flags, apart from
CF when they count by one and from results that are dropped. -/
theorem arithmetic_by_integers (w : Width) :
    (∀ (op : AluOp) (f g : Flags) (x y v : w.Value),
      op.apply f x y = (v, g) ↔ (op.meaning f.carry).Gives f x y v g) ∧
    ∀ (c : Cpu) (target : Place) (k : Calculation w),
      ∃ v g, (k.meaning c.flags.carry).Gives c.flags (k.operands c target).1
          (k.operands c target).2 v g ∧
        c.execute (k.instruction target) = (k.finish c target v g, .next) ∧
        (k.finish c target v g).read w target =
          if k.isWritten then v else c.read w target := by
  refine ⟨fun op f g x y v => op.apply_eq_iff w.four_lt_bits, ?_⟩
  intro c target k
  obtain ⟨v, g, gives, executed⟩ := k.execute_instruction c target
  exact ⟨v, g, gives, executed, k.read_finish c target v g⟩

end I8086
