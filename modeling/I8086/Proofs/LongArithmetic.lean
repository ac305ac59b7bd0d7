import I8086.Proofs.Arithmetic
import I8086.Proofs.FlagFrame
import Mathlib.Data.Nat.Digits.Defs
import Mathlib.Tactic.LinearCombination

/-!
# Numbers of several digits

A program calculates with numbers that fit into no register digit by digit, from the lowest on, and
CF takes the carry from each digit to the next. A digit is a word here, and in the decimal
instructions a decimal digit or a pair of them. If each digit is exact together with its carries,
then so is the whole number. `ADC` and `SBB` are exact on words, and what OF and SF tell about the
signs of the last two words they tell about the signs of the whole numbers.
-/

namespace I8086

/-! ## One digit after the other -/

namespace Cpu

/-- A processor goes through two numbers digit by digit and leaves the digits of a result. `digit`
tells how it gets from a pair of digits to one of the result. What it does in between, to fetch the
digits, to put them away and to count them, is left open, but for CF, which has to survive it. -/
inductive Chained {α : Type} (digit : Cpu → α → α → α → Cpu → Prop) :
    Cpu → List α → List α → List α → Cpu → Prop
  | nil (c : Cpu) : Chained digit c [] [] [] c
  | cons {c ready d e : Cpu} {x y r : α} {xs ys rs : List α}
      (kept : ready.flags.carry = c.flags.carry) (first : digit ready x y r d)
      (rest : Chained digit d xs ys rs e) : Chained digit c (x :: xs) (y :: ys) (r :: rs) e

namespace Chained

variable {α : Type} {digit : Cpu → α → α → α → Cpu → Prop} {c d : Cpu} {xs ys rs : List α}

theorem length_eq (chain : Chained digit c xs ys rs d) :
    ys.length = xs.length ∧ rs.length = xs.length := by
  induction chain with
  | nil => exact ⟨rfl, rfl⟩
  | cons kept first rest ih => exact ⟨congrArg (· + 1) ih.1, congrArg (· + 1) ih.2⟩

/-- If any two digits can be brought to a result without loss of the carry, any two numbers can. -/
theorem exists_of_length_eq
    (step : ∀ (c : Cpu) (x y : α), ∃ ready r d,
      ready.flags.carry = c.flags.carry ∧ digit ready x y r d)
    (c : Cpu) (same : ys.length = xs.length) : ∃ rs d, Chained digit c xs ys rs d := by
  induction xs generalizing c ys with
  | nil =>
      obtain rfl := List.eq_nil_of_length_eq_zero same
      exact ⟨[], c, .nil c⟩
  | cons x xs ih =>
      obtain ⟨y, ys, rfl⟩ := List.exists_cons_of_length_eq_add_one same
      obtain ⟨ready, r, d, kept, first⟩ := step c x y
      obtain ⟨rs, e, rest⟩ := ih d (Nat.succ.inj same)
      exact ⟨r :: rs, e, .cons kept first rest⟩

/-- Digits that are exact with their carries make up numbers that are. The second number counts
with the sign `s`: its digits and the carry are added or subtracted together. -/
theorem exact {P : α → Prop} (value : α → Nat) {b : Nat} {s : Int}
    (step : ∀ {c x y r d}, digit c x y r d → P x → P y → P r ∧
      value x + s * (value y + c.flags.carry.toNat) = value r + s * (d.flags.carry.toNat * b))
    (chain : Chained digit c xs ys rs d) (hx : ∀ x ∈ xs, P x) (hy : ∀ y ∈ ys, P y) :
    (∀ r ∈ rs, P r) ∧
      Nat.ofDigits b (xs.map value) + s * (Nat.ofDigits b (ys.map value) + c.flags.carry.toNat) =
        Nat.ofDigits b (rs.map value) + s * (d.flags.carry.toNat * b ^ xs.length) := by
  induction chain with
  | nil c =>
      refine ⟨nofun, ?_⟩
      rw [List.map_nil, List.length_nil, Nat.ofDigits_nil, pow_zero, mul_one]
      simp only [Nat.cast_zero, zero_add]
  | cons kept first rest ih =>
      obtain ⟨good, low⟩ := step first (hx _ List.mem_cons_self) (hy _ List.mem_cons_self)
      obtain ⟨others, high⟩ := ih (fun x mem => hx x (List.mem_cons_of_mem _ mem))
        fun y mem => hy y (List.mem_cons_of_mem _ mem)
      refine ⟨List.forall_mem_cons.mpr ⟨good, others⟩, ?_⟩
      rw [kept] at low
      simp only [List.map_cons, Nat.ofDigits_cons, List.length_cons, pow_succ]
      push_cast at high ⊢
      linear_combination low + b * high

end Chained

end Cpu

/-! ## Words as digits -/

section Words

variable {n : Nat}

/-- The number that has these words, the lowest first. -/
def numberOf (xs : List (BitVec n)) : Nat := Nat.ofDigits (2 ^ n) (xs.map BitVec.toNat)

/-- The same number in two's complement: its highest bit is its sign. -/
def signedNumberOf (xs : List (BitVec n)) : Int :=
  (numberOf xs : Int).bmod (2 ^ (n * xs.length))

theorem numberOf_cons (x : BitVec n) (xs : List (BitVec n)) :
    numberOf (x :: xs) = x.toNat + 2 ^ n * numberOf xs := Nat.ofDigits_cons

theorem numberOf_lt (pos : 0 < n) (xs : List (BitVec n)) :
    numberOf xs < 2 ^ (n * xs.length) := by
  rw [pow_mul, ← List.length_map BitVec.toNat]
  refine Nat.ofDigits_lt_base_pow_length (Nat.one_lt_two_pow (Nat.ne_of_gt pos)) fun x mem => ?_
  obtain ⟨v, _, rfl⟩ := List.mem_map.mp mem
  exact v.isLt

/-- The reading with a sign is the only one of its range that differs by a multiple of the
capacity. -/
theorem bmod_two_pow_eq_iff {m : Nat} (pos : 0 < m) (a v : Int) :
    a.bmod (2 ^ m) = v ↔ IsSigned m v ∧ (2 : Int) ^ m ∣ v - a := by
  have double := two_pow_pred pos
  have cast := natCast_two_pow (m - 1)
  rw [Int.bmod_eq_iff (Nat.two_pow_pos m), natCast_two_pow, IsSigned, ← and_assoc]
  refine and_congr_left fun _ => ?_
  rw [← natCast_two_pow m, double]
  push_cast
  omega

/-- A number of more words fits if without its lowest word it does. -/
theorem isSigned_add_mul_iff {m : Nat} (pos : 0 < m) {r : Int} (low : IsUnsigned n r) (v : Int) :
    IsSigned (n + m) (r + 2 ^ n * v) ↔ IsSigned m v := by
  have base : (0 : Int) < 2 ^ n := Int.pow_pos (by decide)
  have power : (2 : Int) ^ (n + m - 1) = 2 ^ (m - 1) * 2 ^ n := by
    rw [← Int.pow_add, Nat.add_comm n m, Nat.sub_add_comm pos]
  have quotient : (r + 2 ^ n * v) / 2 ^ n = v := by
    rw [Int.add_mul_ediv_left _ _ (Int.ne_of_gt base), Int.ediv_eq_zero_of_lt low.1 low.2,
      Int.zero_add]
  rw [IsSigned, IsSigned, power, ← Int.neg_mul, ← Int.le_ediv_iff_mul_le base,
    ← Int.ediv_lt_iff_lt_mul base, quotient]

/-- It is negative if without its lowest word it is. -/
theorem add_mul_neg_iff {r : Int} (low : IsUnsigned n r) (v : Int) :
    r + 2 ^ n * v < 0 ↔ v < 0 := by
  have base : (0 : Int) < 2 ^ n := Int.pow_pos (by decide)
  constructor
  · intro negative
    refine Int.not_le.mp fun nonneg => Int.not_le.mpr negative ?_
    exact Int.add_nonneg low.1 (Int.mul_nonneg (Int.le_of_lt base) nonneg)
  · intro negative
    have below : 2 ^ n * v ≤ 2 ^ n * (-1) :=
      Int.mul_le_mul_of_nonneg_left (Int.le_sub_one_of_lt negative) (Int.le_of_lt base)
    have := low.2
    omega

/-- A number of one word is that word. -/
theorem signedNumberOf_singleton (x : BitVec n) : signedNumberOf [x] = x.toInt := by
  have number : numberOf [x] = x.toNat := by rw [numberOf_cons, numberOf]; rfl
  rw [signedNumberOf, number, List.length_singleton, Nat.mul_one, BitVec.toInt_eq_toNat_bmod]

/-- The sign is in the highest word. -/
theorem signedNumberOf_cons (pos : 0 < n) (x : BitVec n) {xs : List (BitVec n)}
    (nonempty : xs ≠ []) : signedNumberOf (x :: xs) = x.toNat + 2 ^ n * signedNumberOf xs := by
  have bits : 0 < n * xs.length := Nat.mul_pos pos (List.length_pos_iff.mpr nonempty)
  obtain ⟨range, multiple⟩ := (bmod_two_pow_eq_iff bits (numberOf xs) _).mp rfl
  rw [signedNumberOf, numberOf_cons, List.length_cons, Nat.mul_succ, Nat.add_comm _ n,
    bmod_two_pow_eq_iff (Nat.add_pos_left pos _)]
  refine ⟨(isSigned_add_mul_iff bits (isUnsigned_toNat x) _).mpr range, ?_⟩
  obtain ⟨k, eq⟩ := multiple
  refine ⟨k, ?_⟩
  push_cast
  rw [Int.pow_add]
  change signedNumberOf xs - numberOf xs = _ at eq
  linear_combination (2 : Int) ^ n * eq

end Words

/-! ## Sums and differences of words -/

/-- `ADC` adds its second operand and the carry, and `SBB` subtracts them. -/
inductive AluOp.Counts : AluOp → Int → Prop
  | adc : Counts adc 1
  | sbb : Counts sbb (-1)

/-- An instruction has combined the value `x` of its target with the value `y` of its source, and
its target holds `r` now. -/
def Cpu.Combines (w : Width) (op : AluOp) (c : Cpu) (x y r : w.Value) (d : Cpu) : Prop :=
  ∃ target source, c.read w target = x ∧ c.readSource w source = y ∧
    (c.execute (.alu w op target source)).1 = d ∧ d.read w target = r

section Sums

variable {n : Nat} {s : Int} {op : AluOp}

/-- A word is exact together with its carry. -/
theorem AluOp.Counts.exact (counts : op.Counts s) (f : Flags) (x y : BitVec n) :
    x.toNat + s * (y.toNat + f.carry.toNat) =
      (op.apply f x y).1.toNat + s * ((op.apply f x y).2.carry.toNat * (2 ^ n : Nat)) := by
  cases counts with
  | adc =>
      have total : (x.toNat + y.toNat + f.carry.toNat : Int) =
          (Sum.add x y f.carry).value.toNat + (2 ^ n : Nat) * (Sum.add x y f.carry).carry.toNat :=
        mod_cast (Sum.toNat_add x y f.carry).symm
      rw [one_mul, one_mul, mul_comm, ← add_assoc]
      exact total
  | sbb =>
      have total : ((Sum.sub x y f.carry).value.toNat + y.toNat + f.carry.toNat : Int) =
          x.toNat + (2 ^ n : Nat) * (Sum.sub x y f.carry).carry.toNat :=
        mod_cast Sum.toNat_sub x y f.carry
      change (x.toNat + -1 * (y.toNat + f.carry.toNat) : Int) =
        (Sum.sub x y f.carry).value.toNat +
          -1 * ((Sum.sub x y f.carry).carry.toNat * (2 ^ n : Nat))
      linarith

/-- What flags tell about the signs of two numbers of so many words, of which the second and the
carry count with the sign `s`: OF is set if the result does not fit, and SF and OF together tell
whether it is negative. -/
structure TellsSigns (s : Int) (xs ys : List (BitVec n)) (carry : Bool) (g : Flags) : Prop where
  overflow : g.overflow = true ↔
    ¬IsSigned (n * xs.length) (signedNumberOf xs + s * (signedNumberOf ys + carry.toNat))
  negative : g.sign ≠ g.overflow ↔
    signedNumberOf xs + s * (signedNumberOf ys + carry.toNat) < 0

/-- They tell so about single words. -/
theorem AluOp.Counts.tellsSigns (pos : 0 < n) (counts : op.Counts s) (f : Flags)
    (x y : BitVec n) : TellsSigns s [x] [y] f.carry (op.apply f x y).2 := by
  constructor <;> rw [signedNumberOf_singleton, signedNumberOf_singleton]
  · rw [List.length_singleton, Nat.mul_one]
    cases counts with
    | adc =>
        rw [one_mul, ← add_assoc]
        exact Sum.overflow_add_iff x y f.carry pos
    | sbb =>
        rw [neg_one_mul, ← sub_eq_add_neg, ← sub_sub]
        exact Sum.overflow_sub_iff x y f.carry pos
  · cases counts with
    | adc =>
        rw [one_mul, ← add_assoc]
        exact Sum.negative_add_iff x y f.carry pos
    | sbb =>
        rw [neg_one_mul, ← sub_eq_add_neg, ← sub_sub]
        exact Sum.negative_sub_iff x y f.carry pos

/-- Words below do not matter for what the flags tell. -/
theorem TellsSigns.cons (pos : 0 < n) {x y r : BitVec n} {xs ys : List (BitVec n)}
    {carry out : Bool} {g : Flags} (tells : TellsSigns s xs ys out g) (nonempty : xs ≠ [])
    (same : ys.length = xs.length)
    (exact : x.toNat + s * (y.toNat + carry.toNat) =
      r.toNat + s * (out.toNat * (2 ^ n : Nat))) :
    TellsSigns s (x :: xs) (y :: ys) carry g := by
  have nonempty' : ys ≠ [] := by
    rwa [← List.length_pos_iff, same, List.length_pos_iff]
  have bits : 0 < n * xs.length := Nat.mul_pos pos (List.length_pos_iff.mpr nonempty)
  have whole : signedNumberOf (x :: xs) + s * (signedNumberOf (y :: ys) + carry.toNat) =
      r.toNat + 2 ^ n * (signedNumberOf xs + s * (signedNumberOf ys + out.toNat)) := by
    rw [signedNumberOf_cons pos x nonempty, signedNumberOf_cons pos y nonempty']
    push_cast at exact
    linear_combination exact
  constructor
  · rw [whole, List.length_cons, Nat.mul_succ, Nat.add_comm _ n,
      isSigned_add_mul_iff bits (isUnsigned_toNat r)]
    exact tells.overflow
  · rw [whole, add_mul_neg_iff (isUnsigned_toNat r)]
    exact tells.negative

end Sums

namespace Cpu

variable {w : Width} {op : AluOp} {s : Int} {c d : Cpu} {xs ys rs : List w.Value}

/-- The result in the target and the flags are those of the operation. -/
theorem Combines.eq_apply {x y r : w.Value} (combines : Combines w op c x y r d)
    (counts : op.Counts s) : op.apply c.flags x y = (r, d.flags) := by
  obtain ⟨target, source, rfl, rfl, rfl, rfl⟩ := combines
  have written : (c.execute (.alu w op target source)).1 = c.writeWithFlags w target
      (op.apply c.flags (c.read w target) (c.readSource w source)) := by
    cases counts <;> rfl
  rw [written, flags_writeWithFlags, writeWithFlags, read_write]

/-- What the flags tell about the last two words they tell about the numbers. -/
theorem Chained.tellsSigns (counts : op.Counts s) (chain : Chained (Combines w op) c xs ys rs d)
    (nonempty : xs ≠ []) : TellsSigns s xs ys c.flags.carry d.flags := by
  have pos := Nat.zero_lt_of_lt w.four_lt_bits
  induction chain with
  | nil => exact absurd rfl nonempty
  | cons kept first rest ih =>
      rename_i c ready d e x y r xs ys rs
      have applied := first.eq_apply counts
      have same := rest.length_eq.1
      -- Only the flags of the last word are seen in the end, so the induction starts from it.
      cases rest with
      | nil =>
          have single := counts.tellsSigns pos ready.flags x y
          rwa [applied, kept] at single
      | cons =>
          have exact := counts.exact ready.flags x y
          rw [applied, kept] at exact
          exact (ih (List.cons_ne_nil _ _)).cons pos (List.cons_ne_nil _ _) same exact

/-- A chain of `ADC` or `SBB` leaves the exact result, a carry included. -/
theorem Chained.numberOf_eq (counts : op.Counts s) (chain : Chained (Combines w op) c xs ys rs d) :
    (numberOf xs : Int) + s * (numberOf ys + c.flags.carry.toNat) =
      numberOf rs + s * (d.flags.carry.toNat * 2 ^ (w.bits * xs.length)) := by
  have word {c d : Cpu} {x y r : w.Value} (combines : Combines w op c x y r d) (_ _ : True) :
      True ∧ (x.toNat : Int) + s * (y.toNat + c.flags.carry.toNat) =
        r.toNat + s * (d.flags.carry.toNat * (2 ^ w.bits : Nat)) := by
    have exact := counts.exact c.flags x y
    rw [combines.eq_apply counts] at exact
    exact ⟨trivial, exact⟩
  obtain ⟨_, exact⟩ := chain.exact BitVec.toNat word (fun _ _ => trivial) fun _ _ => trivial
  rw [pow_mul]
  exact_mod_cast exact

/-- Any word can be brought into a register and any other be combined with it. -/
theorem exists_combines (w : Width) (op : AluOp) (c : Cpu) (x y : w.Value) :
    ∃ ready r d, ready.flags.carry = c.flags.carry ∧ Combines w op ready x y r d := by
  refine ⟨{ c with registers := c.registers.write w .accumulator x }, _, _, rfl,
    .register .accumulator, .immediate y, ?_, rfl, rfl, rfl⟩
  exact Registers.read_write c.registers w .accumulator x

/-- A difference of numbers leaves a borrow if the first is less. -/
theorem Chained.carry_iff (chain : Chained (Combines w .sbb) c xs ys rs d)
    (clear : c.flags.carry = false) : d.flags.carry = true ↔ numberOf xs < numberOf ys := by
  have value := chain.numberOf_eq .sbb
  have below := numberOf_lt (Nat.zero_lt_of_lt w.four_lt_bits) rs
  rw [clear, ← chain.length_eq.2] at value
  cases borrow : d.flags.carry with
  | false =>
      rw [borrow] at value
      simp only [Bool.toNat_false, Nat.cast_zero] at value
      refine iff_of_false Bool.false_ne_true ?_
      omega
  | true =>
      rw [borrow] at value
      simp only [Bool.toNat_false, Bool.toNat_true, Nat.cast_zero, Nat.cast_one] at value
      refine iff_of_true rfl ?_
      have cast := natCast_two_pow (w.bits * rs.length)
      omega

/-- Sums and differences of numbers of several words. `ADC` goes through the words from the lowest
on, or `SBB` does, and each finds the carry that the one before it left; the processor may do
anything else in between that keeps CF. Such a sequence there is for any two numbers of one length.
It is exact: the result with CF on top is the sum with the first carry, and if CF counts as a debt
the difference. OF tells whether the sum or difference of the signed numbers fits, and after a
subtraction CF and SF with OF tell which number is less. -/
theorem chained_words_exact {w : Width} {xs ys : List w.Value} (nonempty : xs ≠ [])
    (same : ys.length = xs.length) (c : Cpu) :
    let bits := w.bits * xs.length
    let carry := c.flags.carry.toNat
    (∃ rs d, Chained (Combines w .adc) c xs ys rs d) ∧
    (∃ rs d, Chained (Combines w .sbb) c xs ys rs d) ∧
    (∀ rs d, Chained (Combines w .adc) c xs ys rs d → rs.length = xs.length ∧
      numberOf xs + numberOf ys + carry = numberOf rs + d.flags.carry.toNat * 2 ^ bits ∧
      (d.flags.overflow = true ↔
        ¬IsSigned bits (signedNumberOf xs + signedNumberOf ys + carry))) ∧
    ∀ rs d, Chained (Combines w .sbb) c xs ys rs d → rs.length = xs.length ∧
      (numberOf xs - numberOf ys - carry : Int) =
        numberOf rs - d.flags.carry.toNat * 2 ^ bits ∧
      (d.flags.overflow = true ↔
        ¬IsSigned bits (signedNumberOf xs - signedNumberOf ys - carry)) ∧
      (c.flags.carry = false →
        (d.flags.carry = true ↔ numberOf xs < numberOf ys) ∧
        (d.flags.sign ≠ d.flags.overflow ↔ signedNumberOf xs < signedNumberOf ys)) := by
  intro bits carry
  refine ⟨Chained.exists_of_length_eq (exists_combines w .adc) c same,
    Chained.exists_of_length_eq (exists_combines w .sbb) c same, fun rs d chain => ?_,
    fun rs d chain => ?_⟩
  · have value := chain.numberOf_eq .adc
    obtain ⟨overflow, _⟩ := chain.tellsSigns .adc nonempty
    rw [one_mul, one_mul, ← add_assoc] at value
    rw [one_mul, ← add_assoc] at overflow
    exact ⟨chain.length_eq.2, by exact_mod_cast value, overflow⟩
  · have value := chain.numberOf_eq .sbb
    obtain ⟨overflow, negative⟩ := chain.tellsSigns .sbb nonempty
    rw [neg_one_mul, neg_one_mul, ← sub_eq_add_neg, ← sub_eq_add_neg, ← sub_sub] at value
    rw [neg_one_mul, ← sub_eq_add_neg, ← sub_sub] at overflow negative
    refine ⟨chain.length_eq.2, value, overflow, fun clear => ⟨chain.carry_iff clear, ?_⟩⟩
    rw [clear, Bool.toNat_false, Nat.cast_zero, Int.sub_zero, sub_neg] at negative
    exact negative

/-- The greatest signed number of two words and one more: a carry goes from the low word to the high
one, none comes out of it, and OF says that the sum does not fit. -/
theorem chained_words_exact_of_greatest :
    ∃ d, Chained (Combines .word .adc) {} [0xFFFF, 0x7FFF] [1, 0] [0, 0x8000] d ∧
      d.flags.overflow = true ∧ numberOf [0xFFFF#16, 0x7FFF#16] + numberOf [1#16, 0#16] =
        numberOf [0#16, 0x8000#16] + d.flags.carry.toNat * 2 ^ 32 := by
  have low : Combines .word .adc { registers := { ax := 0xFFFF } } 0xFFFF 1 0 _ :=
    ⟨.register .accumulator, .immediate 1, rfl, rfl, rfl, rfl⟩
  have high : Combines .word .adc { registers := { ax := 0x7FFF }, flags := { carry := true } }
      0x7FFF 0 0x8000 _ := ⟨.register .accumulator, .immediate 0, rfl, rfl, rfl, rfl⟩
  obtain ⟨d, chain⟩ : ∃ d,
      Chained (Combines .word .adc) {} [0xFFFF, 0x7FFF] [1, 0] [0, 0x8000] d :=
    ⟨_, .cons (by rfl) low (.cons (by rfl) high (.nil _))⟩
  obtain ⟨_, _, sums, _⟩ := chained_words_exact (w := .word) (List.cons_ne_nil 0xFFFF [0x7FFF])
    (show [1#16, 0#16].length = _ from rfl) {}
  obtain ⟨_, value, overflow⟩ := sums _ d chain
  refine ⟨d, chain, overflow.mpr ?_, value⟩
  decide

end Cpu

end I8086
