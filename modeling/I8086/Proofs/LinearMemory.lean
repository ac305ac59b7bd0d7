import I8086.Proofs.Access
import Mathlib.Data.List.Induction

/-!
# Linear memory

The host asks memory for bytes by a linear address, which has 64 bits, and a length. A request is
granted exactly if its range ends inside memory, and a request that is refused changes nothing.
After any requests every byte is the one that has been stored there last.

`MemoryAction.carryOut` carries a request out one assignment after the other, the way the host does:
it forms the end of a range in 64 bits, finds a single byte by its index, and stores bytes in turn.
`MemoryAction.attempt_carryOut` says that this comes to the same.
-/

namespace I8086

/-! ## Requests -/

/-- What the host asks of memory. -/
inductive MemoryRequest where
  | slice (address : BitVec 64) (len : Nat)
  | readByte (address : BitVec 64)
  | readWord (address : BitVec 64)
  | load (address : BitVec 64) (data : List Byte)
  | writeByte (address : BitVec 64) (v : Byte)
  | writeWord (address : BitVec 64) (v : Word)

/-- What memory answers to a request that it grants. -/
inductive MemoryAnswer where
  | bytes (data : List Byte)
  | byte (v : Byte)
  | word (v : Word)
  | done
deriving DecidableEq

namespace MemoryRequest

/-- Where the range of a request begins. -/
def address : MemoryRequest → BitVec 64
  | slice a _ | readByte a | readWord a | load a _ | writeByte a _ | writeWord a _ => a

/-- The number of bytes in the range. -/
def length : MemoryRequest → Nat
  | slice _ len => len
  | load _ data => data.length
  | readByte _ | writeByte _ _ => 1
  | readWord _ | writeWord _ _ => 2

/-- What is to be stored from the address on. -/
def data : MemoryRequest → List Byte
  | load _ data => data
  | writeByte _ v => [v]
  | writeWord _ v => [v.low, v.high]
  | slice _ _ | readByte _ | readWord _ => []

/-- No request stores more than its range holds. -/
theorem length_data_le (r : MemoryRequest) : r.data.length ≤ r.length := by
  cases r with
  | slice | readByte | readWord => exact Nat.zero_le _
  | load | writeByte | writeWord => exact Nat.le_refl _

/-- Whether the range ends inside memory. -/
def Fits (r : MemoryRequest) : Prop := r.address.toNat + r.length ≤ memorySize

instance (r : MemoryRequest) : Decidable r.Fits := Nat.decLe ..

/-- The answer to a request, from the byte at each address. -/
def answer (contents : Nat → Byte) : MemoryRequest → MemoryAnswer
  | slice a len => .bytes ((List.range len).map fun k => contents (a.toNat + k))
  | readByte a => .byte (contents a.toNat)
  | readWord a => .word (Word.ofBytes (contents a.toNat) (contents (a.toNat + 1)))
  | load _ _ | writeByte _ _ | writeWord _ _ => .done

/-- An answer comes from the bytes in the range. -/
theorem answer_congr {r : MemoryRequest} {f g : Nat → Byte}
    (same : ∀ k < r.length, f (r.address.toNat + k) = g (r.address.toNat + k)) :
    r.answer f = r.answer g := by
  cases r with
  | slice a len =>
      have bytes : (List.range len).map (fun k => f (a.toNat + k)) =
          (List.range len).map fun k => g (a.toNat + k) :=
        List.map_congr_left fun k hk => same k (List.mem_range.1 hk)
      rw [answer, answer, bytes]
  | readByte a => exact congrArg MemoryAnswer.byte (same 0 Nat.one_pos)
  | readWord a =>
      exact congrArg₂ (fun low high => MemoryAnswer.word (Word.ofBytes low high))
        (same 0 Nat.two_pos) (same 1 Nat.one_lt_two)
  | load | writeByte | writeWord => rfl

/-- The byte that a request stores at a linear address. It stores nothing unless all of it fits. -/
def stored? (r : MemoryRequest) (i : Nat) : Option Byte :=
  if r.Fits ∧ r.address.toNat ≤ i then r.data[i - r.address.toNat]? else none

/-- The byte at a linear address after some requests to empty memory: the one stored last. -/
def contents (rs : List MemoryRequest) (i : Nat) : Byte :=
  (rs.filterMap (·.stored? i)).getLast?.getD 0

end MemoryRequest

namespace Memory

/-- The answer of a request that may replace memory, and the memory that is there afterwards. -/
def replaced (m : Memory) : Except Fault Memory → Except Fault MemoryAnswer × Memory
  | .ok new => (.ok .done, new)
  | .error fault => (.error fault, m)

/-- Answers a request. -/
def perform (m : Memory) : MemoryRequest → Except Fault MemoryAnswer × Memory
  | .slice a len => ((m.slice a.toNat len).map .bytes, m)
  | .readByte a => ((m.readByte a.toNat).map .byte, m)
  | .readWord a => ((m.readWord a.toNat).map .word, m)
  | .load a data => m.replaced (m.load a.toNat data)
  | .writeByte a v => m.replaced (m.writeByte a.toNat v)
  | .writeWord a v => m.replaced (m.writeWord a.toNat v)

/-- The memory after some requests. -/
def after (m : Memory) (rs : List MemoryRequest) : Memory :=
  rs.foldl (fun m r => (m.perform r).2) m

theorem after_append (m : Memory) (rs : List MemoryRequest) (r : MemoryRequest) :
    m.after (rs ++ [r]) = ((m.after rs).perform r).2 := by
  rw [after, List.foldl_append]
  rfl

/-- Bytes replace memory if they fit. -/
theorem replaced_load (m : Memory) (address : Nat) (data : List Byte) :
    m.replaced (m.load address data) =
      if Fits address data.length then (.ok .done, m.store (BitVec.ofNat 20 address) data)
      else (.error (.outOfBounds address), m) := by
  unfold load
  split <;> rfl

/-- A request is granted exactly if it fits, and is refused with its own address otherwise. -/
theorem perform_eq (m : Memory) (r : MemoryRequest) :
    m.perform r =
      if r.Fits then
        (.ok (r.answer fun i => m.get (BitVec.ofNat 20 i)),
          m.store (BitVec.ofNat 20 r.address.toNat) r.data)
      else (.error (.outOfBounds r.address.toNat), m) := by
  cases r with
  | slice a len =>
      have elements : (List.range' a.toNat len).map (fun i => m.get (BitVec.ofNat 20 i)) =
          (List.range len).map fun k => m.get (BitVec.ofNat 20 (a.toNat + k)) := by
        rw [List.range'_eq_map_range, List.map_map]
        rfl
      show ((m.slice a.toNat len).map MemoryAnswer.bytes, m) = if Fits a.toNat len then _ else _
      rw [slice, elements]
      split <;> rfl
  | readByte a =>
      show ((m.readByte a.toNat).map MemoryAnswer.byte, m) = if Fits a.toNat 1 then _ else _
      rw [readByte]
      split <;> rfl
  | readWord a =>
      show ((m.readWord a.toNat).map MemoryAnswer.word, m) = if Fits a.toNat 2 then _ else _
      rw [readWord]
      split <;> rfl
  | load a data => exact m.replaced_load a.toNat data
  | writeByte a v => exact m.replaced_load a.toNat [v]
  | writeWord a v => exact m.replaced_load a.toNat [v.low, v.high]

/-! ## What is there afterwards -/

/-- Bytes that fit are found at their distance from the first address and nowhere else. -/
theorem get_store_of_fits (m : Memory) {start : Nat} {data : List Byte}
    (fits : start + data.length ≤ memorySize) (a : Address) :
    (m.store (BitVec.ofNat 20 start) data).get a =
      (if start ≤ a.toNat then data[a.toNat - start]? else none).getD (m.get a) := by
  have size : start + data.length ≤ 0x100000 := fits
  rw [get_store _ _ _ (Nat.le_trans (Nat.le_add_left _ _) fits)]
  by_cases behind : start ≤ a.toNat
  · have distance : (a - BitVec.ofNat 20 start).toNat = a.toNat - start := by bv_omega
    simp only [distance, if_pos behind]
    split
    · rename_i inside
      rw [List.getElem?_eq_getElem inside, Option.getD_some]
    · rename_i outside
      rw [List.getElem?_eq_none (Nat.le_of_not_lt outside), Option.getD_none]
  · -- The start may be the end of memory, which is no address, but then there are no bytes.
    have far : ¬(a - BitVec.ofNat 20 start).toNat < data.length := by bv_omega
    rw [dif_neg far, if_neg behind, Option.getD_none]

/-- A request replaces the bytes that it stores and no others. -/
theorem get_perform (m : Memory) (r : MemoryRequest) (a : Address) :
    (m.perform r).2.get a = (r.stored? a.toNat).getD (m.get a) := by
  rw [perform_eq, MemoryRequest.stored?]
  by_cases fits : r.Fits
  · have inside := Nat.le_trans (Nat.add_le_add_left r.length_data_le r.address.toNat) fits
    rw [if_pos fits, get_store_of_fits m inside]
    simp only [fits, true_and]
  · simp only [fits, if_false, false_and, Option.getD_none]

/-- Every byte is the one stored there last. -/
theorem get_after (rs : List MemoryRequest) (a : Address) :
    (zero.after rs).get a = MemoryRequest.contents rs a.toNat := by
  induction rs using List.reverseRecOn with
  | nil => exact get_zero a
  | append_singleton rs r ih =>
      have last : (rs ++ [r]).filterMap (·.stored? a.toNat) =
          rs.filterMap (·.stored? a.toNat) ++ (r.stored? a.toNat).toList := by
        cases stored : r.stored? a.toNat <;> simp [List.filterMap_append, stored]
      rw [after_append, get_perform, ih, MemoryRequest.contents, MemoryRequest.contents, last,
        List.getLast?_append]
      cases r.stored? a.toNat <;> rfl

end Memory

/-! ## One assignment after the other -/

/-- Something that changes memory and may fail. What it has changed by then stays changed. -/
abbrev MemoryAction := ExceptT Fault (StateM Memory)

namespace MemoryAction

variable {α β : Type} {m : Memory}

/-- What an action returns, and the memory that it leaves. -/
def attempt (m : Memory) (action : MemoryAction α) : Except Fault α × Memory :=
  action.run.run m

/-- The end of a range, if the host's 64 bits hold it. -/
def rangeEnd? (address : BitVec 64) (len : Nat) : Option Nat :=
  if address.toNat + len < 0x10000000000000000 then some (address.toNat + len) else none

/-- Checks that a range ends inside memory. -/
def checkRange (address : BitVec 64) (len : Nat) : MemoryAction Unit := do
  let m ← get
  match rangeEnd? address len with
  | some rangeEnd =>
    if rangeEnd ≤ m.bytes.size then return () else throw (.outOfBounds address.toNat)
  | none => throw (.outOfBounds address.toNat)

/-- The byte with an index, if memory has one. -/
def byteAt (i : Nat) : MemoryAction Byte := do
  let m ← get
  if h : i < m.bytes.size then return (m.bytes[i]).toBitVec else throw (.outOfBounds i)

/-- Replaces the byte with an index, if memory has one. -/
def assignAt (i : Nat) (v : Byte) : MemoryAction Unit := do
  let m ← get
  if h : i < m.bytes.size then
    set (⟨m.bytes.set i (UInt8.ofBitVec v) h, (Array.size_set h).trans m.size_bytes⟩ : Memory)
  else throw (.outOfBounds i)

/-- Replaces bytes one after the other. -/
def copyTo (i : Nat) : List Byte → MemoryAction Unit
  | [] => return ()
  | v :: vs => do
    assignAt i v
    copyTo (i + 1) vs

/-- Carries out a request. Requests for a single byte find it by its index and check no range. -/
def carryOut : MemoryRequest → MemoryAction MemoryAnswer
  | .slice a len => do
    checkRange a len
    return .bytes (← (List.range' a.toNat len).mapM byteAt)
  | .readByte a => return .byte (← byteAt a.toNat)
  | .readWord a => do
    checkRange a 2
    return .word (Word.ofBytes (← byteAt a.toNat) (← byteAt (a.toNat + 1)))
  | .load a data => do
    checkRange a data.length
    copyTo a.toNat data
    return .done
  | .writeByte a v => do
    assignAt a.toNat v
    return .done
  | .writeWord a v => do
    checkRange a 2
    assignAt a.toNat v.low
    assignAt (a.toNat + 1) v.high
    return .done

@[simp] theorem attempt_pure (a : α) : attempt m (pure a) = (.ok a, m) := rfl

/-- An action that succeeds is followed by the next one, on the memory that it leaves. One that
fails is the last. -/
theorem attempt_bind (first : MemoryAction α) (next : α → MemoryAction β) :
    attempt m (first >>= next) =
      match attempt m first with
      | (.ok a, m) => attempt m (next a)
      | (.error fault, m) => (.error fault, m) := by
  unfold attempt
  simp only [ExceptT.run_bind, StateT.run_bind]
  rcases first.run.run m with ⟨_ | _, _⟩ <;> rfl

theorem attempt_bind_of_ok {first : MemoryAction α} {next : α → MemoryAction β} {a : α}
    {m' : Memory} (h : attempt m first = (.ok a, m')) :
    attempt m (first >>= next) = attempt m' (next a) := by
  rw [attempt_bind, h]

theorem attempt_bind_of_error {first : MemoryAction α} {next : α → MemoryAction β} {fault : Fault}
    {m' : Memory} (h : attempt m first = (.error fault, m')) :
    attempt m (first >>= next) = (.error fault, m') := by
  rw [attempt_bind, h]

/-- The end of a range that does not fit in 64 bits is past memory too. -/
theorem attempt_checkRange (m : Memory) (a : BitVec 64) (len : Nat) :
    attempt m (checkRange a len) =
      if Memory.Fits a.toNat len then (.ok (), m) else (.error (.outOfBounds a.toNat), m) := by
  show attempt m (match rangeEnd? a len with
      | some rangeEnd =>
        if rangeEnd ≤ m.bytes.size then return () else throw (.outOfBounds a.toNat)
      | none => throw (.outOfBounds a.toNat)) = _
  rw [rangeEnd?]
  by_cases held : a.toNat + len < 0x10000000000000000
  · rw [if_pos held]
    dsimp only
    by_cases fits : Memory.Fits a.toNat len
    · rw [if_pos fits, if_pos (Nat.le_trans fits (Nat.le_of_eq m.size_bytes.symm))]
      rfl
    · rw [if_neg fits, if_neg fun inside => fits (Nat.le_trans inside (Nat.le_of_eq m.size_bytes))]
      rfl
  · have outside : ¬Memory.Fits a.toNat len := by
      simp only [Memory.Fits, memorySize]
      omega
    rw [if_neg held, if_neg outside]
    rfl

/-- An index inside memory is a linear address. -/
theorem exists_toNat_eq {i : Nat} (inside : i < memorySize) : ∃ a : Address, a.toNat = i :=
  ⟨BitVec.ofNat 20 i, Nat.mod_eq_of_lt inside⟩

theorem attempt_byteAt (m : Memory) (i : Nat) :
    attempt m (byteAt i) =
      if i < memorySize then (.ok (m.get (BitVec.ofNat 20 i)), m)
      else (.error (.outOfBounds i), m) := by
  show attempt m (if h : i < m.bytes.size then return (m.bytes[i]).toBitVec
    else throw (.outOfBounds i)) = _
  by_cases inside : i < memorySize
  · obtain ⟨a, rfl⟩ := exists_toNat_eq inside
    rw [dif_pos (m.toNat_lt_size a), if_pos inside, BitVec.ofNat_toNat, BitVec.setWidth_eq]
    rfl
  · rw [dif_neg fun h => inside (Nat.lt_of_lt_of_eq h m.size_bytes), if_neg inside]
    rfl

theorem attempt_assignAt (m : Memory) (i : Nat) (v : Byte) :
    attempt m (assignAt i v) =
      if i < memorySize then (.ok (), m.set (BitVec.ofNat 20 i) v)
      else (.error (.outOfBounds i), m) := by
  show attempt m (if h : i < m.bytes.size then
      set (⟨m.bytes.set i (UInt8.ofBitVec v) h, (Array.size_set h).trans m.size_bytes⟩ : Memory)
    else throw (.outOfBounds i)) = _
  by_cases inside : i < memorySize
  · obtain ⟨a, rfl⟩ := exists_toNat_eq inside
    rw [dif_pos (m.toNat_lt_size a), if_pos inside, BitVec.ofNat_toNat, BitVec.setWidth_eq]
    rfl
  · rw [dif_neg fun h => inside (Nat.lt_of_lt_of_eq h m.size_bytes), if_neg inside]
    rfl

/-- Bytes that fit are replaced as by one store. -/
theorem attempt_copyTo (m : Memory) (i : Nat) (data : List Byte)
    (fits : Memory.Fits i data.length) :
    attempt m (copyTo i data) = (.ok (), m.store (BitVec.ofNat 20 i) data) := by
  induction data generalizing m i with
  | nil => rfl
  | cons v vs ih =>
      simp only [Memory.Fits, List.length_cons] at fits
      have first := attempt_assignAt m i v
      rw [if_pos (by omega)] at first
      rw [copyTo, attempt_bind_of_ok first, ih _ _ (by simp only [Memory.Fits]; omega),
        BitVec.ofNat_add]
      rfl

/-- Bytes inside memory are all found, and none of them is changed. -/
theorem attempt_mapM_byteAt (m : Memory) (is : List Nat) (inside : ∀ i ∈ is, i < memorySize) :
    attempt m (is.mapM byteAt) = (.ok (is.map fun i => m.get (BitVec.ofNat 20 i)), m) := by
  induction is with
  | nil => rfl
  | cons i is ih =>
      have first := attempt_byteAt m i
      rw [if_pos (inside i List.mem_cons_self)] at first
      rw [List.mapM_cons, attempt_bind_of_ok first,
        attempt_bind_of_ok (ih fun j hj => inside j (List.mem_cons_of_mem _ hj)), attempt_pure]
      rfl

/-- The host's assignments answer a request as a memory that has all of it at once. -/
theorem attempt_carryOut (m : Memory) (r : MemoryRequest) :
    attempt m (carryOut r) = m.perform r := by
  rw [Memory.perform_eq]
  by_cases fits : r.Fits
  · rw [if_pos fits]
    have checked : attempt m (checkRange r.address r.length) = (.ok (), m) :=
      (attempt_checkRange m _ _).trans (if_pos fits)
    have range (k : Nat) (inside : k < r.length) : r.address.toNat + k < memorySize :=
      Nat.lt_of_lt_of_le (Nat.add_lt_add_left inside _) fits
    cases r with
    | slice a len =>
        have bytes := attempt_mapM_byteAt m (List.range' a.toNat len) fun i hi => by
          obtain ⟨k, inside, rfl⟩ := List.mem_range'.1 hi
          rw [Nat.one_mul]
          exact range k inside
        refine (attempt_bind_of_ok checked).trans ((attempt_bind_of_ok bytes).trans ?_)
        rw [attempt_pure, List.range'_eq_map_range, List.map_map]
        rfl
    | readByte a =>
        have byte := (attempt_byteAt m a.toNat).trans (if_pos (range 0 Nat.one_pos))
        exact attempt_bind_of_ok byte
    | readWord a =>
        have low := (attempt_byteAt m a.toNat).trans (if_pos (range 0 Nat.two_pos))
        have high := (attempt_byteAt m (a.toNat + 1)).trans (if_pos (range 1 Nat.one_lt_two))
        exact (attempt_bind_of_ok checked).trans
          ((attempt_bind_of_ok low).trans (attempt_bind_of_ok high))
    | load a data =>
        exact (attempt_bind_of_ok checked).trans
          (attempt_bind_of_ok (attempt_copyTo m a.toNat data fits))
    | writeByte a v =>
        have byte := (attempt_assignAt m a.toNat v).trans (if_pos (range 0 Nat.one_pos))
        exact attempt_bind_of_ok byte
    | writeWord a v =>
        have low := (attempt_assignAt m a.toNat v.low).trans (if_pos (range 0 Nat.two_pos))
        have high := (attempt_assignAt (m.set (BitVec.ofNat 20 a.toNat) v.low) (a.toNat + 1)
          v.high).trans (if_pos (range 1 Nat.one_lt_two))
        refine (attempt_bind_of_ok checked).trans
          ((attempt_bind_of_ok low).trans ((attempt_bind_of_ok high).trans ?_))
        rw [attempt_pure, BitVec.ofNat_add]
        rfl
  · rw [if_neg fits]
    have refused : attempt m (checkRange r.address r.length) =
        (.error (.outOfBounds r.address.toNat), m) :=
      (attempt_checkRange m _ _).trans (if_neg fits)
    cases r with
    | slice | readWord | load | writeWord => exact attempt_bind_of_error refused
    | readByte a => exact attempt_bind_of_error ((attempt_byteAt m a.toNat).trans (if_neg fits))
    | writeByte a v =>
        exact attempt_bind_of_error ((attempt_assignAt m a.toNat v).trans (if_neg fits))

end MemoryAction

/-- After any requests to empty memory a further one is granted exactly if its range ends inside
memory. It is answered from the bytes that have been stored last, and what it stores is added to
them. If it is refused, then with its own address, and memory stays as it is. The host's assignments
come to the same, and memory keeps its size. -/
theorem Memory.perform_after (rs : List MemoryRequest) :
    let m := Memory.zero.after rs
    m.bytes.size = 0x100000 ∧
      (∀ i, m.readByte i =
        if i < 0x100000 then .ok (MemoryRequest.contents rs i) else .error (.outOfBounds i)) ∧
      ∀ r : MemoryRequest,
        (m.perform r =
          if r.address.toNat + r.length ≤ 0x100000 then
            (.ok (r.answer (MemoryRequest.contents rs)), Memory.zero.after (rs ++ [r]))
          else (.error (.outOfBounds r.address.toNat), m)) ∧
        MemoryAction.attempt m (MemoryAction.carryOut r) = m.perform r := by
  intro m
  have byte {i : Nat} (inside : i < memorySize) :
      m.get (BitVec.ofNat 20 i) = MemoryRequest.contents rs i := by
    have index : (BitVec.ofNat 20 i).toNat = i := Nat.mod_eq_of_lt inside
    rw [Memory.get_after, index]
  refine ⟨m.size_bytes, fun i => ?_, fun r => ⟨?_, MemoryAction.attempt_carryOut m r⟩⟩
  · by_cases inside : i < 0x100000
    · have found : m.readByte i = .ok (m.get (BitVec.ofNat 20 i)) := if_pos inside
      rw [if_pos inside, found, byte inside]
    · rw [if_neg inside]
      exact if_neg inside
  · rw [Memory.after_append]
    by_cases fits : r.address.toNat + r.length ≤ 0x100000
    · have granted := (m.perform_eq r).trans (if_pos fits)
      have answer : r.answer (fun i => m.get (BitVec.ofNat 20 i)) =
          r.answer (MemoryRequest.contents rs) :=
        MemoryRequest.answer_congr fun k inside =>
          byte (Nat.lt_of_lt_of_le (Nat.add_lt_add_left inside _) fits)
      rw [if_pos fits, ← answer]
      exact granted.trans (congrArg _ (congrArg Prod.snd granted).symm)
    · rw [if_neg fits]
      exact (m.perform_eq r).trans (if_neg fits)

end I8086
