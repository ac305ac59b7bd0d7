import I8086.Instruction.Decode

/-!
# Prefix bytes

Seven bytes are prefixes. Four name a segment, two ask for a repetition, and one has no effect
here. `Prefixes.ofBytes` gives the effect of a list of them without reading them one by one: of
each kind the last one counts. The scan at the start of a step is related to it: it takes prefix
bytes until one that is no prefix, or until it has taken as many as it may.
-/

namespace I8086

namespace Byte

/-- The bytes that only modify the instruction after them. -/
def IsPrefix (b : Byte) : Prop := b ∈ [0x26, 0x2E, 0x36, 0x3E, 0xF0, 0xF2, 0xF3]

instance (b : Byte) : Decidable b.IsPrefix := inferInstanceAs (Decidable (b ∈ _))

/-- The segment that a prefix names. -/
def segmentPrefix? (b : Byte) : Option Segment :=
  match b.toNat with
  | 0x26 => some .es
  | 0x2E => some .cs
  | 0x36 => some .ss
  | 0x3E => some .ds
  | _ => none

/-- The repetition that a prefix asks for. -/
def repeatPrefix? (b : Byte) : Option Repetition :=
  match b.toNat with
  | 0xF2 => some .whileNotZero
  | 0xF3 => some .whileZero
  | _ => none

end Byte

namespace Code

/-- The stream begins with these bytes. -/
def Holds (code : Code) (bytes : List Byte) : Prop :=
  ∀ i (h : i < bytes.length), code i = bytes[i]

@[simp] theorem drop_apply (code : Code) (k i : Nat) : code.drop k i = code (k + i) := rfl

@[simp] theorem drop_zero (code : Code) : code.drop 0 = code := by
  funext i
  rw [drop_apply, Nat.zero_add]

theorem drop_drop (code : Code) (j k : Nat) : (code.drop j).drop k = code.drop (j + k) := by
  funext i
  simp only [drop_apply, Nat.add_assoc]

theorem Holds.head {code : Code} {b : Byte} {bytes : List Byte} (holds : code.Holds (b :: bytes)) :
    code 0 = b := holds 0 (Nat.zero_lt_succ _)

theorem Holds.tail {code : Code} {b : Byte} {bytes : List Byte} (holds : code.Holds (b :: bytes)) :
    (code.drop 1).Holds bytes := by
  intro i hi
  rw [drop_apply, Nat.add_comm]
  exact holds (i + 1) (Nat.succ_lt_succ hi)

theorem Holds.cons {code : Code} {b : Byte} {bytes : List Byte} (first : code 0 = b)
    (rest : (code.drop 1).Holds bytes) : code.Holds (b :: bytes) := by
  intro i hi
  cases i with
  | zero => exact first
  | succ i =>
      have byte := rest i (Nat.lt_of_succ_lt_succ hi)
      rwa [drop_apply, Nat.add_comm] at byte

theorem Holds.drop {code : Code} {bytes : List Byte} (holds : code.Holds bytes) (k : Nat) :
    (code.drop k).Holds (bytes.drop k) := by
  intro i hi
  rw [List.length_drop] at hi
  rw [drop_apply, List.getElem_drop]
  exact holds (k + i) (by omega)

theorem Holds.left {code : Code} {bytes rest : List Byte} (holds : code.Holds (bytes ++ rest)) :
    code.Holds bytes := by
  intro i hi
  rw [holds i (by rw [List.length_append]; omega), List.getElem_append_left hi]

theorem Holds.right {code : Code} {bytes rest : List Byte} (holds : code.Holds (bytes ++ rest)) :
    (code.drop bytes.length).Holds rest := by
  have dropped := holds.drop bytes.length
  rwa [List.drop_left] at dropped

/-- Every stream begins with prefixes, perhaps none, that a scan takes: all there are, or as many as
there is room for. -/
theorem exists_prefixes (code : Code) (room : Nat) :
    ∃ bytes : List Byte, code.Holds bytes ∧ (∀ b ∈ bytes, b.IsPrefix) ∧
      (bytes.length < room ∧ ¬(code bytes.length).IsPrefix ∨ bytes.length = room) := by
  induction room generalizing code with
  | zero => exact ⟨[], nofun, nofun, .inr rfl⟩
  | succ room ih =>
      by_cases first : (code 0).IsPrefix
      · obtain ⟨bytes, holds, prefixes, ends⟩ := ih (code.drop 1)
        refine ⟨code 0 :: bytes, holds.cons rfl, ?_, ?_⟩
        · intro b hb
          rcases List.mem_cons.mp hb with rfl | hb
          · exact first
          · exact prefixes b hb
        · rw [List.length_cons]
          rcases ends with ⟨less, stop⟩ | all
          · rw [drop_apply, Nat.add_comm] at stop
            exact .inl ⟨Nat.succ_lt_succ less, stop⟩
          · exact .inr (congrArg (· + 1) all)
      · exact ⟨[], nofun, nofun, .inl ⟨room.succ_pos, first⟩⟩

end Code

namespace Prefixes

/-- The effect of a list of prefix bytes: the last segment named in it and the last repetition. -/
def ofBytes (bytes : List Byte) : Prefixes where
  segment := (bytes.filterMap Byte.segmentPrefix?).getLast?
  repetition := (bytes.filterMap Byte.repeatPrefix?).getLast?

/-- The effect of a list of prefix bytes that follow others. -/
def extend (p : Prefixes) (bytes : List Byte) : Prefixes where
  segment := (ofBytes bytes).segment.or p.segment
  repetition := (ofBytes bytes).repetition.or p.repetition

@[simp] theorem extend_nil (p : Prefixes) : p.extend [] = p := rfl

@[simp] theorem empty_extend (bytes : List Byte) : extend {} bytes = ofBytes bytes := by
  simp only [extend, Option.or_none]

/-- Prefixes may be taken in portions. -/
theorem extend_extend (p : Prefixes) (first second : List Byte) :
    (p.extend first).extend second = p.extend (first ++ second) := by
  simp only [extend, ofBytes, List.filterMap_append, List.getLast?_append, Option.or_assoc]

/-- Reading a prefix opcode has the effect of its byte. -/
theorem add_of_isPrefix {b : Byte} (h : b.IsPrefix) :
    ∃ op, Opcode.ofByte? b = some op ∧ op.isPrefix = true ∧
      ∀ p : Prefixes, p.add op = p.extend [b] := by
  simp only [Byte.IsPrefix, List.mem_cons, List.not_mem_nil, or_false] at h
  rcases h with rfl | rfl | rfl | rfl | rfl | rfl | rfl <;> exact ⟨_, rfl, rfl, fun _ => rfl⟩

/-- A byte that is no prefix has no opcode that is one. -/
theorem isPrefix_eq_false {b : Byte} (h : ¬b.IsPrefix) {op : Opcode}
    (decoded : Opcode.ofByte? b = some op) : op.isPrefix = false := by
  have all : ∀ b : Byte, (Opcode.ofByte? b).any Opcode.isPrefix = decide b.IsPrefix := by
    decide +kernel
  have := all b
  rw [decoded, Option.any_some, decide_eq_false h] at this
  exact this

/-- The scan takes a prefix byte and goes on behind it. -/
theorem scan_succ_of_isPrefix {code : Code} (h : (code 0).IsPrefix) (room : Nat) (p : Prefixes) :
    scan code (room + 1) p =
      ((scan (code.drop 1) room (p.extend [code 0])).1 + 1,
        (scan (code.drop 1) room (p.extend [code 0])).2) := by
  obtain ⟨op, decoded, isPrefix, effect⟩ := add_of_isPrefix h
  simp only [scan, decoded, isPrefix, if_true, effect]

/-- Any other byte ends the scan. -/
theorem scan_succ_of_not_isPrefix {code : Code} (h : ¬(code 0).IsPrefix) (room : Nat)
    (p : Prefixes) : scan code (room + 1) p = (0, p, true) := by
  cases decoded : Opcode.ofByte? (code 0) with
  | none => simp only [scan, decoded]
  | some op => simp only [scan, decoded, isPrefix_eq_false h decoded, Bool.false_eq_true, if_false]

/-- A run of prefixes that leaves room ends the scan at the byte behind it. -/
theorem scan_of_lt {code : Code} {bytes : List Byte} (holds : code.Holds bytes)
    (prefixes : ∀ b ∈ bytes, b.IsPrefix) (stop : ¬(code bytes.length).IsPrefix) {room : Nat}
    (h : bytes.length < room) (p : Prefixes) :
    scan code room p = (bytes.length, p.extend bytes, true) := by
  induction bytes generalizing code room p with
  | nil =>
      obtain ⟨room, rfl⟩ := Nat.exists_eq_succ_of_ne_zero (Nat.ne_of_gt h)
      exact scan_succ_of_not_isPrefix stop room p
  | cons b bytes ih =>
      obtain ⟨room, rfl⟩ := Nat.exists_eq_succ_of_ne_zero (Nat.ne_zero_of_lt h)
      have isPrefix : (code 0).IsPrefix := holds.head ▸ prefixes b List.mem_cons_self
      have rest := ih holds.tail (fun c hc => prefixes c (List.mem_cons_of_mem b hc))
        (by rwa [Code.drop_apply, Nat.add_comm]) (Nat.lt_of_succ_lt_succ h) (p.extend [code 0])
      rw [scan_succ_of_isPrefix isPrefix, rest, extend_extend, holds.head]
      rfl

/-- A longer run uses up the room, and the scan does not look behind it. -/
theorem scan_of_le {code : Code} {bytes : List Byte} (holds : code.Holds bytes)
    (prefixes : ∀ b ∈ bytes, b.IsPrefix) {room : Nat} (h : room ≤ bytes.length) (p : Prefixes) :
    scan code room p = (room, p.extend (bytes.take room), false) := by
  induction room generalizing code bytes p with
  | zero => rfl
  | succ room ih =>
      obtain ⟨b, bytes, rfl⟩ := List.exists_cons_of_length_pos (Nat.lt_of_lt_of_le room.succ_pos h)
      have isPrefix : (code 0).IsPrefix := holds.head ▸ prefixes b List.mem_cons_self
      have rest := ih holds.tail (fun c hc => prefixes c (List.mem_cons_of_mem b hc))
        (Nat.le_of_succ_le_succ h) (p.extend [code 0])
      rw [scan_succ_of_isPrefix isPrefix, rest, extend_extend, holds.head]
      rfl

end Prefixes

end I8086
