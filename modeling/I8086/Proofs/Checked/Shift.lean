import I8086.Proofs.Checked.Number
import I8086.Shift

/-!
# Shifts in the host's numbers

The host refuses to shift a number by as many bits as it has, or by more, while the counts of the
machine go up to 255 and are not reduced. So it guards every shift, takes a bit only after a look
at its index, and turns operand and carry round in 32 bits, where they fit together with the carry.
The guards leave nothing out: no shift goes too far and no index falls below zero, and the outcome
is the one that the machine defines.
-/

namespace I8086.Checked

variable {n : Nat}

/-- Bit `k` of an operand; beyond its top there are only zeros. -/
def bit (x : BitVec n) (k : Nat) : Checked Bool :=
  if k < n then do
    let k ← amount n k
    pure ((x >>> k).getLsbD 0)
  else pure false

/-- Rotates operand and carry together by less than a full turn, `up` to the left and `down` to the
right, in 32 bits. -/
def rotateCarry (x : BitVec n) (up down : Nat) (carry : Bool) : Checked (Shifted n) := do
  let top ← amount 32 n
  let wide : BitVec 32 := (BitVec.ofBool carry).setWidth 32 <<< top ||| x.setWidth 32
  let up ← amount 32 up
  let down ← amount 32 down
  let size ← amount 32 (n + 1)
  let mask ← unsigned 32 (2 ^ size - 1)
  let rotated := (wide <<< up ||| wide >>> down) &&& BitVec.ofNat 32 mask
  pure ⟨rotated.setWidth n, (rotated >>> top).getLsbD 0⟩

/-- Rotates operand and carry together to the left. -/
def rotateCarryLeft (x : BitVec n) (count : Nat) (carry : Bool) : Checked (Shifted n) := do
  let count ← modulo count (n + 1)
  if count = 0 then pure ⟨x, carry⟩
  else do
    let rest ← difference (n + 1) count
    rotateCarry x count rest carry

/-- Rotates operand and carry together to the right. -/
def rotateCarryRight (x : BitVec n) (count : Nat) (carry : Bool) : Checked (Shifted n) := do
  let count ← modulo count (n + 1)
  if count = 0 then pure ⟨x, carry⟩
  else do
    let rest ← difference (n + 1) count
    rotateCarry x rest count carry

/-- A shift to the left that may empty the operand. -/
def shiftLeft (x : BitVec n) (count : Nat) : Checked (BitVec n) :=
  if n ≤ count then pure 0
  else do
    let k ← amount n count
    pure (x <<< k)

/-- A shift to the right that may empty the operand. -/
def shiftRight (x : BitVec n) (count : Nat) : Checked (BitVec n) :=
  if n ≤ count then pure 0
  else do
    let k ← amount n count
    pure (x >>> k)

/-- The last bit that a shift to the left moves out. -/
def lastLeft (x : BitVec n) (count : Nat) : Checked Bool :=
  if count ≤ n then do
    let k ← difference n count
    bit x k
  else pure false

/-- The last bit that a shift to the right moves out. -/
def lastRight (x : BitVec n) (count : Nat) : Checked Bool := do
  let k ← difference count 1
  bit x k

/-- The operand after `count` steps, for a positive count. -/
def shift (op : ShiftOp) (x : BitVec n) (count : Nat) (carry : Bool) : Checked (Shifted n) :=
  match op with
  | .rol => do
    let v := x.rotateLeft count
    let last ← bit v 0
    pure ⟨v, last⟩
  | .ror =>
    let v := x.rotateRight count
    pure ⟨v, v.msb⟩
  | .rcl => rotateCarryLeft x count carry
  | .rcr => rotateCarryRight x count carry
  | .shl => do
    let v ← shiftLeft x count
    let last ← lastLeft x count
    pure ⟨v, last⟩
  | .shr => do
    let v ← shiftRight x count
    let last ← lastRight x count
    pure ⟨v, last⟩
  | .sar =>
    if n ≤ count then pure ⟨if x.msb then BitVec.allOnes n else 0, x.msb⟩
    else do
      let k ← amount n count
      let last ← lastRight x count
      pure ⟨x.sshiftRight k, last⟩

/-- OF after a single step. -/
def shiftOverflow (op : ShiftOp) (x : BitVec n) (s : Shifted n) : Checked Bool :=
  match op with
  | .rol | .rcl | .shl => pure (s.value.msb != s.carry)
  | .ror | .rcr => do
    let k ← difference n 2
    let below ← bit s.value k
    pure (s.value.msb != below)
  | .shr | .sar => pure (x ^^^ s.value).msb

/-- OF after `count` steps: more than one leave it as it was. -/
def overflowAfter (op : ShiftOp) (f : Flags) (x : BitVec n) (count : Nat) (s : Shifted n) :
    Checked Bool :=
  if count = 1 then shiftOverflow op x s else pure f.overflow

/-- Result and flags of a shift with an unreduced count. -/
def applyShift (op : ShiftOp) (f : Flags) (x : BitVec n) (count : Nat) :
    Checked (BitVec n × Flags) :=
  if count = 0 then pure (x, f)
  else do
    let s ← shift op x count f.carry
    let overflow ← overflowAfter op f x count s
    let g := { f with carry := s.carry, overflow }
    pure (s.value, if op.isRotate then g else g.withResult s.value)

/-- The guard leaves no bit out that the operand has. -/
@[simp] theorem bit_eq (x : BitVec n) (k : Nat) : bit x k = pure (x.getLsbD k) := by
  unfold bit
  split
  case isTrue inside =>
      rw [amount_eq inside, pure_bind, BitVec.getLsbD_ushiftRight, Nat.add_zero]
  case isFalse outside => rw [BitVec.getLsbD_of_ge _ _ (Nat.le_of_not_lt outside)]

/-- Operand and carry fit into 32 bits. -/
private theorem getLsbD_wide (size : n = 8 ∨ n = 16) (x : BitVec n) (carry : Bool) (i : Nat) :
    ((BitVec.ofBool carry).setWidth 32 <<< n ||| x.setWidth 32 : BitVec 32).getLsbD i =
      (BitVec.cons carry x).getLsbD i := by
  simp only [BitVec.getLsbD_or, BitVec.getLsbD_shiftLeft, BitVec.getLsbD_setWidth,
    BitVec.getLsbD_ofBool, BitVec.getLsbD_cons]
  rcases Nat.lt_trichotomy i n with below | rfl | above
  · have inside : i < 32 := by omega
    simp [below, inside, Nat.ne_of_lt below]
  · have inside : i < 32 := by omega
    simp [inside]
  · have distance : i - n ≠ 0 := by omega
    simp [distance, Nat.ne_of_gt above, BitVec.getLsbD_of_ge x i (Nat.le_of_lt above)]

/-- Nor does the mask take away any bit of the rotated operand. -/
private theorem getLsbD_rotated (size : n = 8 ∨ n = 16) {wide : BitVec 32} {x : BitVec (n + 1)}
    (same : ∀ i, wide.getLsbD i = x.getLsbD i) (up down i : Nat) (inside : i < n + 1) :
    ((wide <<< up ||| wide >>> down) &&& BitVec.ofNat 32 (2 ^ (n + 1) - 1)).getLsbD i =
      (x <<< up ||| x >>> down).getLsbD i := by
  have within : i < 32 := by omega
  simp only [BitVec.getLsbD_and, BitVec.getLsbD_or, BitVec.getLsbD_shiftLeft,
    BitVec.getLsbD_ushiftRight, BitVec.getLsbD_ofNat, Nat.testBit_two_pow_sub_one, inside, within,
    same, decide_true, Bool.true_and, Bool.and_true]

theorem rotateCarry_eq (size : n = 8 ∨ n = 16) (x : BitVec n) {up down : Nat} (carry : Bool)
    (turn : up + down = n + 1) :
    rotateCarry x up down carry =
      pure (.ofWide (BitVec.cons carry x <<< up ||| BitVec.cons carry x >>> down)) := by
  have mask : unsigned 32 (2 ^ (n + 1) - 1) = pure (2 ^ (n + 1) - 1) := by
    rcases size with rfl | rfl <;> rfl
  have bits := getLsbD_rotated size (getLsbD_wide size x carry) up down
  rw [rotateCarry, amount_eq (by omega), pure_bind, amount_eq (by omega), pure_bind,
    amount_eq (by omega), pure_bind, amount_eq (by omega), pure_bind, mask, pure_bind]
  refine congrArg pure ?_
  unfold Shifted.ofWide
  congr 1
  · apply BitVec.eq_of_getLsbD_eq
    intro i hi
    rw [BitVec.getLsbD_setWidth, BitVec.getLsbD_setWidth, bits i (by omega)]
  · rw [BitVec.getLsbD_ushiftRight, BitVec.msb_eq_getLsbD_last]
    exact bits n (Nat.lt_succ_self n)

/-- A full turn leaves operand and carry as they were. -/
private theorem ofWide_cons (x : BitVec n) (carry : Bool) :
    Shifted.ofWide (BitVec.cons carry x) = ⟨x, carry⟩ := by
  rw [Shifted.ofWide, BitVec.setWidth_cons, BitVec.msb_cons]

/-- A rotate through carry repeats after one more step than the operand has bits. -/
theorem rotateCarryLeft_eq (size : n = 8 ∨ n = 16) (x : BitVec n) (count : Nat) (carry : Bool) :
    rotateCarryLeft x count carry = pure (.rotateCarryLeft x count carry) := by
  have turn := Nat.mod_lt count (Nat.succ_pos n)
  rw [rotateCarryLeft, modulo_eq (Nat.succ_ne_zero n), pure_bind, Shifted.rotateCarryLeft,
    BitVec.rotateLeft_def]
  generalize count % (n + 1) = k at turn
  split
  case isTrue none =>
      rw [none, Nat.sub_zero, BitVec.shiftLeft_zero, BitVec.ushiftRight_eq_zero (Nat.le_refl _),
        BitVec.or_zero, ofWide_cons]
  case isFalse some =>
      rw [difference_eq (Nat.le_of_lt turn), pure_bind, rotateCarry_eq size x carry (by omega)]

theorem rotateCarryRight_eq (size : n = 8 ∨ n = 16) (x : BitVec n) (count : Nat) (carry : Bool) :
    rotateCarryRight x count carry = pure (.rotateCarryRight x count carry) := by
  have turn := Nat.mod_lt count (Nat.succ_pos n)
  rw [rotateCarryRight, modulo_eq (Nat.succ_ne_zero n), pure_bind, Shifted.rotateCarryRight,
    BitVec.rotateRight_def]
  generalize count % (n + 1) = k at turn
  split
  case isTrue none =>
      rw [none, Nat.sub_zero, BitVec.ushiftRight_zero, BitVec.shiftLeft_eq_zero (Nat.le_refl _),
        BitVec.or_zero, ofWide_cons]
  case isFalse some =>
      rw [difference_eq (Nat.le_of_lt turn), pure_bind, rotateCarry_eq size x carry (by omega),
        BitVec.or_comm]

@[simp] theorem shiftLeft_eq (x : BitVec n) (count : Nat) :
    shiftLeft x count = pure (x <<< count) := by
  unfold shiftLeft
  split
  case isTrue empty =>
      rw [BitVec.shiftLeft_eq_zero empty]
      rfl
  case isFalse some => rw [amount_eq (Nat.lt_of_not_le some), pure_bind]

@[simp] theorem shiftRight_eq (x : BitVec n) (count : Nat) :
    shiftRight x count = pure (x >>> count) := by
  unfold shiftRight
  split
  case isTrue empty =>
      rw [BitVec.ushiftRight_eq_zero empty]
      rfl
  case isFalse some => rw [amount_eq (Nat.lt_of_not_le some), pure_bind]

/-- The bit moved out last is the one that one more bit would have kept. -/
theorem lastLeft_eq (x : BitVec n) (count : Nat) :
    lastLeft x count = pure (x.setWidth (n + 1) <<< count).msb := by
  rw [lastLeft, BitVec.msb_eq_getLsbD_last, BitVec.getLsbD_shiftLeft, BitVec.getLsbD_setWidth,
    Nat.add_sub_cancel]
  have inside : n - count < n + 1 := by omega
  split
  case isTrue fits =>
      rw [difference_eq fits, pure_bind, bit_eq]
      simp [inside, Nat.not_lt_of_le fits]
  case isFalse far => simp [Nat.lt_of_not_le far]

theorem lastRight_eq (x : BitVec n) {count : Nat} (positive : 0 < count) :
    lastRight x count = pure (x.getLsbD (count - 1)) := by
  rw [lastRight, difference_eq positive, pure_bind, bit_eq]

/-- The last bit that an arithmetic shift moves out; past the sign it is the sign. -/
private theorem getLsbD_sshiftRight_pred (size : n = 8 ∨ n = 16) (x : BitVec n) {count : Nat}
    (positive : 0 < count) :
    (x.sshiftRight (count - 1)).getLsbD 0 =
      if n ≤ count then x.msb else x.getLsbD (count - 1) := by
  have some : ¬n ≤ 0 := by omega
  rw [BitVec.getLsbD_sshiftRight, Nat.add_zero, BitVec.msb_eq_getLsbD_last]
  simp only [some, decide_false, Bool.not_false, Bool.true_and]
  rcases Nat.lt_trichotomy count n with near | rfl | far
  · rw [if_pos (by omega), if_neg (by omega)]
  · rw [if_pos (by omega), if_pos (Nat.le_refl _)]
  · rw [if_neg (by omega), if_pos (by omega)]

/-- An arithmetic shift past the sign fills the operand with it. -/
private theorem sshiftRight_of_le (x : BitVec n) {count : Nat} (far : n ≤ count) :
    x.sshiftRight count = if x.msb then BitVec.allOnes n else 0 := by
  apply BitVec.eq_of_getLsbD_eq
  intro i hi
  have outside : ¬count + i < n := by omega
  rw [BitVec.getLsbD_sshiftRight, if_neg outside]
  cases x.msb <;> simp [hi]

theorem shift_eq (size : n = 8 ∨ n = 16) (op : ShiftOp) (x : BitVec n) {count : Nat}
    (positive : 0 < count) (carry : Bool) :
    shift op x count carry = pure (op.shift x count carry) := by
  cases op with
  | rol => simp only [shift, bit_eq, pure_bind, ShiftOp.shift]
  | ror => rfl
  | rcl => exact rotateCarryLeft_eq size x count carry
  | rcr => exact rotateCarryRight_eq size x count carry
  | shl =>
      have value : (x.setWidth (n + 1) <<< count).setWidth n = x <<< count := by
        apply BitVec.eq_of_getLsbD_eq
        intro i hi
        simp [hi]
      simp only [shift, shiftLeft_eq, pure_bind, lastLeft_eq, ShiftOp.shift, Shifted.ofWide, value]
  | shr => simp only [shift, shiftRight_eq, pure_bind, lastRight_eq x positive, ShiftOp.shift]
  | sar =>
      unfold shift ShiftOp.shift
      dsimp only
      rw [getLsbD_sshiftRight_pred size x positive]
      split
      case isTrue far => rw [sshiftRight_of_le x far]
      case isFalse near =>
          rw [amount_eq (Nat.lt_of_not_le near), pure_bind, lastRight_eq x positive, pure_bind]

/-- OF compares bits that the operand has. -/
theorem shiftOverflow_eq (size : n = 8 ∨ n = 16) (op : ShiftOp) (x : BitVec n) (s : Shifted n) :
    shiftOverflow op x s = pure (op.overflow x s) := by
  cases op with
  | rol | rcl | shl => rfl
  | ror | rcr =>
      have second : s.value.getMsbD 1 = s.value.getLsbD (n - 2) := by
        have two : 1 < n := by omega
        rw [BitVec.getMsbD_eq_getLsbD, decide_eq_true two, Bool.true_and, Nat.sub_sub]
      rw [shiftOverflow, difference_eq (by omega), pure_bind, bit_eq, pure_bind, ShiftOp.overflow,
        second]
  | shr | sar => rw [shiftOverflow, BitVec.msb_xor]; rfl

theorem applyShift_eq (size : n = 8 ∨ n = 16) (op : ShiftOp) (f : Flags) (x : BitVec n)
    (count : Nat) : applyShift op f x count = pure (op.apply f x count) := by
  unfold applyShift ShiftOp.apply
  split
  case isTrue none => rfl
  case isFalse some =>
      have overflow (s : Shifted n) : overflowAfter op f x count s =
          pure (if count = 1 then op.overflow x s else f.overflow) := by
        unfold overflowAfter
        split
        · exact shiftOverflow_eq size op x s
        · rfl
      rw [shift_eq size op x (Nat.pos_of_ne_zero some), pure_bind, overflow, pure_bind]

end I8086.Checked
