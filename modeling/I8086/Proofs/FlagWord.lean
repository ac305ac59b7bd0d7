import I8086.Flags

/-!
# The flag word

Instructions and handlers change flags through a small interface: one flag is set, cleared or
inverted, or the flags are taken from a word or from a byte. `FlagChange.onWord` does this to a bare
word, as bit operations, and `FlagChange.onFlags` to nine Booleans. A word that begins as the word
of some flags remains the word of the flags changed alongside: no bit outside the nine is ever set,
and nothing is lost between the two forms.
-/

namespace I8086

/-- The number of the bit of a flag. -/
def Flag.bit : Flag → Nat
  | .carry => 0
  | .parity => 2
  | .aux => 4
  | .zero => 6
  | .sign => 7
  | .trap => 8
  | .interrupt => 9
  | .direction => 10
  | .overflow => 11

/-- The word with only the bit of a flag. -/
def Flag.mask (flag : Flag) : Word := 1#16 <<< flag.bit

/-- The bits of the flag word that carry state. -/
def definedFlags : Word := 0x0FD5

/-- The bits of the low byte that carry state. -/
def lowFlags : Byte := 0xD5

theorem Flag.bit_lt (flag : Flag) : flag.bit < 16 := by
  cases flag <;> decide

theorem getLsbD_definedFlags (flag : Flag) : definedFlags.getLsbD flag.bit = true := by
  cases flag <;> rfl

theorem Flag.getLsbD_mask (flag other : Flag) :
    flag.mask.getLsbD other.bit = decide (other = flag) := by
  cases flag <;> cases other <;> rfl

/-- What the interface to the flags offers. -/
inductive FlagChange where
  | update (flag : Flag) (v : Bool)
  | flip (flag : Flag)
  | unpack (w : Word)
  | unpackLow (b : Byte)

namespace FlagChange

/-- Sets or clears the bit of a flag. -/
def updateWord (word : Word) (flag : Flag) (v : Bool) : Word :=
  if v then word ||| flag.mask else word &&& ~~~flag.mask

/-- A change to a bare word. -/
def onWord (word : Word) : FlagChange → Word
  | update flag v => updateWord word flag v
  | flip flag => updateWord word flag (word &&& flag.mask == 0)
  | unpack w => w &&& definedFlags
  | unpackLow b => (word &&& 0xFF00) ||| (b &&& lowFlags).setWidth 16

/-- A change to the nine flags. -/
def onFlags (f : Flags) : FlagChange → Flags
  | update flag v => f.set flag v
  | flip flag => f.flip flag
  | unpack w => .unpack w
  | unpackLow b => f.unpackLow b

end FlagChange

namespace Flags

/-- The word has no bits but the defined ones, and those are the flags. -/
structure Represents (word : Word) (f : Flags) : Prop where
  undefined : word &&& ~~~definedFlags = 0#16
  defined : ∀ flag, word.getLsbD flag.bit = f.get flag

/-- Every defined bit belongs to a flag. -/
theorem exists_bit {i : Nat} (defined : definedFlags.getLsbD i = true) :
    ∃ flag : Flag, flag.bit = i := by
  match i with
  | 0 => exact ⟨.carry, rfl⟩
  | 2 => exact ⟨.parity, rfl⟩
  | 4 => exact ⟨.aux, rfl⟩
  | 6 => exact ⟨.zero, rfl⟩
  | 7 => exact ⟨.sign, rfl⟩
  | 8 => exact ⟨.trap, rfl⟩
  | 9 => exact ⟨.interrupt, rfl⟩
  | 10 => exact ⟨.direction, rfl⟩
  | 11 => exact ⟨.overflow, rfl⟩
  | 1 | 3 | 5 => cases defined
  | i + 12 =>
      have high : definedFlags >>> 12 = 0#16 := by decide
      have bit := congrArg (·.getLsbD i) high
      rw [BitVec.getLsbD_ushiftRight, BitVec.getLsbD_zero, Nat.add_comm] at bit
      rw [bit] at defined
      cases defined

theorem get_unpack (w : Word) (flag : Flag) : (unpack w).get flag = w.getLsbD flag.bit := by
  cases flag <;> rfl

/-- The word of nine flags represents them. -/
theorem represents_pack (f : Flags) : Represents f.pack f := by
  have undefined : ∀ c p a z s t i d o : Bool,
      (Flags.mk c p a z s t i d o).pack &&& ~~~definedFlags = 0#16 := by
    decide +kernel
  refine ⟨undefined _ _ _ _ _ _ _ _ _, fun flag => ?_⟩
  rw [← get_unpack, unpack_pack]

/-- No other word does. -/
theorem Represents.eq_pack {word : Word} {f : Flags} (represents : Represents word f) :
    word = f.pack := by
  have packed := represents_pack f
  apply BitVec.eq_of_getLsbD_eq
  intro i hi
  cases defined : definedFlags.getLsbD i with
  | true =>
      obtain ⟨flag, rfl⟩ := exists_bit defined
      rw [represents.defined, packed.defined]
  | false =>
      have clear {w : Word} (undefined : w &&& ~~~definedFlags = 0#16) : w.getLsbD i = false := by
        have bit := congrArg (·.getLsbD i) undefined
        simpa only [BitVec.getLsbD_and, BitVec.getLsbD_not, defined, hi, decide_true,
          Bool.not_false, Bool.and_true, BitVec.getLsbD_zero] using bit
      rw [clear represents.undefined, clear packed.undefined]

variable {word : Word} {f : Flags} (represents : Represents word f)

include represents

/-- Setting or clearing the bit of a flag. -/
theorem Represents.update (flag : Flag) (v : Bool) :
    Represents (FlagChange.updateWord word flag v) (f.set flag v) := by
  have inside : flag.mask &&& ~~~definedFlags = 0#16 := by
    cases flag <;> rfl
  constructor
  · cases v with
    | true =>
        show (word ||| flag.mask) &&& ~~~definedFlags = 0#16
        rw [BitVec.and_or_distrib_right, represents.undefined, inside, BitVec.or_self]
    | false =>
        show (word &&& ~~~flag.mask) &&& ~~~definedFlags = 0#16
        rw [BitVec.and_assoc, BitVec.and_comm (~~~flag.mask), ← BitVec.and_assoc,
          represents.undefined, BitVec.zero_and]
  · intro other
    have bit : (FlagChange.updateWord word flag v).getLsbD other.bit =
        if other = flag then v else word.getLsbD other.bit := by
      cases v <;>
        by_cases same : other = flag <;>
        simp only [FlagChange.updateWord, BitVec.getLsbD_or, BitVec.getLsbD_and, BitVec.getLsbD_not,
          Flag.getLsbD_mask, Flag.bit_lt, same, decide_true, decide_false, if_true, if_false,
          Bool.or_true, Bool.or_false, Bool.and_true, Bool.and_false, Bool.not_true, Bool.not_false,
          Bool.false_eq_true]
    rw [bit]
    split
    · rename_i same
      rw [same, get_set_self]
    · rename_i other
      rw [get_set_ne _ _ other, represents.defined]

/-- A change to the word of some flags is the change to the flags. -/
theorem Represents.change (change : FlagChange) :
    Represents (change.onWord word) (change.onFlags f) := by
  cases change with
  | update flag v => exact represents.update flag v
  | flip flag =>
      have clear : (word &&& flag.mask == 0) = !f.get flag := by
        have bit : word &&& flag.mask = if word.getLsbD flag.bit then flag.mask else 0#16 :=
          BitVec.and_twoPow word flag.bit
        have mask : flag.mask ≠ 0#16 := by
          cases flag <;> decide
        rw [bit, represents.defined flag]
        cases f.get flag with
        | true => exact beq_eq_false_iff_ne.mpr mask
        | false => rfl
      show Represents (FlagChange.updateWord word flag _) (f.set flag _)
      rw [clear]
      exact represents.update flag _
  | unpack w =>
      constructor
      · show (w &&& definedFlags) &&& ~~~definedFlags = 0#16
        rw [BitVec.and_assoc, show definedFlags &&& ~~~definedFlags = 0#16 from rfl,
          BitVec.and_zero]
      · intro flag
        show (w &&& definedFlags).getLsbD flag.bit = (unpack w).get flag
        rw [BitVec.getLsbD_and, getLsbD_definedFlags, Bool.and_true, get_unpack]
  | unpackLow b =>
      constructor
      · show ((word &&& 0xFF00) ||| (b &&& lowFlags).setWidth 16) &&& ~~~definedFlags = 0#16
        rw [BitVec.and_or_distrib_right, BitVec.and_assoc, BitVec.and_comm 0xFF00,
          ← BitVec.and_assoc, represents.undefined, BitVec.zero_and, BitVec.setWidth_and,
          BitVec.and_assoc, show lowFlags.setWidth 16 &&& ~~~definedFlags = 0#16 from rfl,
          BitVec.and_zero, BitVec.or_zero]
      · intro flag
        have bit : ((word &&& 0xFF00#16) ||| (b &&& lowFlags).setWidth 16).getLsbD flag.bit =
            (word.getLsbD flag.bit && (0xFF00#16).getLsbD flag.bit ||
              (b.getLsbD flag.bit && lowFlags.getLsbD flag.bit)) := by
          rw [BitVec.getLsbD_or, BitVec.getLsbD_and, BitVec.getLsbD_setWidth, BitVec.getLsbD_and,
            decide_eq_true flag.bit_lt, Bool.true_and]
        have taken : (f.get flag && (0xFF00#16).getLsbD flag.bit ||
            (b.getLsbD flag.bit && lowFlags.getLsbD flag.bit)) = (f.unpackLow b).get flag := by
          cases flag <;> simp [Flag.bit, lowFlags, get, unpackLow]
        refine bit.trans ?_
        rw [represents.defined]
        exact taken

end Flags

variable {f g : Flags}

/-- However the interface is used, a word and nine flags that begin as the same stay the same. -/
theorem FlagChange.foldl_onWord (changes : List FlagChange) (f : Flags) :
    changes.foldl onWord f.pack = (changes.foldl onFlags f).pack := by
  induction changes generalizing f with
  | nil => rfl
  | cons change changes ih =>
      rw [List.foldl_cons, List.foldl_cons, ((Flags.represents_pack f).change change).eq_pack, ih]

/-- Two settings of the flags are the same if their words are. -/
theorem Flags.pack_inj : f.pack = g.pack ↔ f = g := by
  constructor
  · intro same
    rw [← unpack_pack f, same, unpack_pack]
  · rintro rfl
    rfl

/-- Masking the word of the flags loses nothing. -/
theorem Flags.pack_and (f : Flags) : f.pack &&& definedFlags = f.pack := by
  have all : definedFlags ||| ~~~definedFlags = BitVec.allOnes 16 := rfl
  calc f.pack &&& definedFlags
      = f.pack &&& definedFlags ||| f.pack &&& ~~~definedFlags := by
        rw [(represents_pack f).undefined, BitVec.or_zero]
    _ = f.pack &&& BitVec.allOnes 16 := by
        rw [← BitVec.and_or_distrib_left, all]
    _ = f.pack := BitVec.and_allOnes

end I8086
