import I8086.Proofs.Arithmetic
import I8086.Proofs.Operation
import I8086.Proofs.Product

/-!
# Multiplication and division

Products go into the double accumulator, AX or DX above AX, and dividends come from it. A step that
multiplies leaves the exact product there, and CF and OF tell alike whether it needs the upper half.
A step that divides leaves quotient and remainder, or delivers the interrupt of the division before
anything has changed. So a product can always be divided by one of its factors again.
-/

namespace I8086

/-! ## The two halves of the double accumulator -/

namespace Cpu

/-- The upper half of the double accumulator: AH for bytes, DX for words. -/
def upper (c : Cpu) : (w : Width) → w.Value
  | .byte => c.registers.high .ax
  | .word => c.registers.dx

theorem wide_eq (c : Cpu) (w : Width) : c.wide w = c.upper w ++ c.accumulator w := by
  cases w with
  | byte => exact (Word.ofBytes_low_high c.registers.ax).symm
  | word => rfl

theorem wide_setWide (c : Cpu) (w : Width) (v : BitVec (w.bits + w.bits)) :
    (c.setWide w v).wide w = v := by
  cases w with
  | byte => rfl
  | word => exact upper_append_lower v

/-! ## The instructions -/

/-- `MUL` or `IMUL`. -/
def multiplication (w : Width) (source : Place) (signed negated : Bool) : Instruction :=
  if signed then .imul w source negated else .mul w source

/-- `DIV` or `IDIV`. -/
def division (w : Width) (source : Place) (signed negated : Bool) : Instruction :=
  if signed then .idiv w source negated else .div w source

variable (c : Cpu) (w : Width) (source : Place) (signed negated : Bool)

/-- The product is exact, and CF and OF tell what its upper half is. -/
theorem exists_product :
    ∃ high low : w.Value,
      reading signed (high ++ low) =
        signFactor signed negated *
          (reading signed (c.accumulator w) * reading signed (c.read w source)) ∧
      c.execute (multiplication w source signed negated) =
        ({ c with flags := c.flags.withWide (high != extension signed low) }.setWide w
          (high ++ low), .next) := by
  have pos := Nat.zero_lt_of_lt w.four_lt_bits
  cases signed with
  | false =>
      have product := toNat_unsignedProduct (c.accumulator w) (c.read w source)
      have execute : c.execute (multiplication w source false negated) =
        (c.mul w source, .next) := rfl
      rw [mul] at execute
      generalize unsignedProduct (c.accumulator w) (c.read w source) = p at product execute
      refine ⟨p.extractLsb' w.bits w.bits, p.setWidth w.bits, ?_, ?_⟩
      · rw [upper_append_lower, show signFactor false negated = 1 from rfl, Int.one_mul]
        change (p.toNat : Int) = (c.accumulator w).toNat * (c.read w source).toNat
        exact_mod_cast product
      · rw [execute, ← unsignedWide_append, upper_append_lower]
  | true =>
      have product := toInt_signedProduct pos (c.accumulator w) (c.read w source) negated
      have execute : c.execute (multiplication w source true negated) =
        (c.imul w source negated, .next) := rfl
      rw [imul] at execute
      generalize signedProduct (c.accumulator w) (c.read w source) negated = p at product execute
      refine ⟨p.extractLsb' w.bits w.bits, p.setWidth w.bits, ?_, ?_⟩
      · rw [upper_append_lower]
        exact product
      · rw [execute, ← signedWide_append, upper_append_lower]

theorem execute_division :
    c.execute (division w source signed negated) =
      c.divided w (divide? signed negated (c.wide w) (c.read w source)) := by
  cases signed <;> rfl

end Cpu

namespace Machine

variable {World : Type} {m : Machine World} {w : Width} {source : Place} {signed negated : Bool}
  {length : Nat}

/-- The processor when an instruction of this length has been read, of which so far nothing but its
place is known. -/
def cpuBehind (m : Machine World) (length : Nat) : Cpu :=
  m.cpu.relocate (m.cpu.registers.ip + BitVec.ofNat 16 length) m.instructionStart

/-- At `CS:IP` stand prefixes, fewer than a step may read, and one of the operations on a single
operand, by its number in the ModR/M byte. Whether it is repeated, the prefixes tell and those
that earlier steps have read. -/
def OperatesOn (m : Machine World) (op : RegisterNumber) (w : Width) (source : Place)
    (repeated : Bool) (length : Nat) : Prop :=
  ∃ bytes b displacement, (∀ b ∈ bytes, b.IsPrefix) ∧ bytes.length < maxPrefixRun ∧
    Encoding.IsOperand b displacement ∧ (ModRM.ofByte b).reg = op ∧
    m.code.Holds (bytes ++ (Encoding.sized 0xF6 w :: b :: displacement)) ∧
    source = Encoding.operandPlace ((m.pending.getD {}).extend bytes) b displacement ∧
    (repeated = true ↔ m.repetition.isSome = true ∨ 0xF2 ∈ bytes ∨ 0xF3 ∈ bytes) ∧
    length = bytes.length + (displacement.length + 2)

/-- The step goes on behind an instruction of this length that has replaced the double accumulator
and the flags. -/
def Leaves (m : Machine World) (length : Nat) (w : Width) (high low : w.Value) (f : Flags) : Prop :=
  m.step = (.ok .next, { m with
    cpu := { m.cpuBehind length with flags := f }.setWide w (high ++ low)
    pending := none
    count := m.count + 1 })

/-- Two bytes ask for a repetition. -/
theorem repeats_extend (bytes : List Byte) :
    ((m.pending.getD {}).extend bytes).repeats = true ↔
      m.repetition.isSome = true ∨ 0xF2 ∈ bytes ∨ 0xF3 ∈ bytes := by
  have earlier : (m.pending.getD {}).repetition = m.repetition := by
    rw [repetition]
    cases m.pending <;> rfl
  have named : ∀ b : Byte, Byte.repeatPrefix? b = none ↔ ¬(b = 0xF2 ∨ b = 0xF3) := by
    decide +kernel
  have none : bytes.filterMap Byte.repeatPrefix? = [] ↔ ¬(0xF2 ∈ bytes ∨ 0xF3 ∈ bytes) := by
    rw [List.filterMap_eq_nil_iff]
    simp only [named]
    constructor
    · rintro none (two | three)
      · exact none _ two (.inl rfl)
      · exact none _ three (.inr rfl)
    · rintro none b there (rfl | rfl)
      · exact none (.inl there)
      · exact none (.inr there)
  have here : (Prefixes.ofBytes bytes).repetition.isSome = true ↔ 0xF2 ∈ bytes ∨ 0xF3 ∈ bytes := by
    rw [Prefixes.ofBytes, List.getLast?_isSome]
    exact (not_congr none).trans not_not
  rw [Prefixes.repeats, Prefixes.extend, earlier, Option.isSome_or, Bool.or_eq_true, here, or_comm]

theorem step_of_fetched {i : Instruction} (running : m.cpu.halted = false)
    (fetched : m.fetched = .instruction i length) :
    m.step = concluded (follow { m with
      cpu := ((m.cpuBehind length).execute i).1
      pending := none } ((m.cpuBehind length).execute i).2) := by
  rw [step_of_instruction running fetched, perform_eq, markStart_eq]
  rfl

/-- Such an operation is what the step carries out. -/
theorem fetched_of_operatesOn {op : RegisterNumber}
    (stands : m.OperatesOn op w source negated length) (alone : 2 ≤ op.val) :
    ∃ p value, Prefixes.repeats p = negated ∧
      m.fetched = .instruction (.ofUnary w p source value op) length := by
  obtain ⟨bytes, b, displacement, prefixes, short, operand, rfl, holds, rfl, repeated, rfl⟩ :=
    stands
  refine ⟨(m.pending.getD {}).extend bytes,
    (Code.ofList (b :: displacement)).value w (displacement.length + 1), ?_, ?_⟩
  · rw [Bool.eq_iff_iff, repeats_extend, repeated]
  · have immediate : (if (ModRM.ofByte b).reg.val ≤ 1 then w.bytes else 0) = 0 :=
      if_neg (Nat.not_le_of_lt alone)
    refine fetched_of_decode? holds prefixes short ?_
    refine Encoding.decode?_of_operand (.unaryGroup w) (by cases w <;> rfl) rfl operand ?_
    rw [Instruction.decodeModRM?, immediate]

theorem fetched_multiplication
    (stands : m.OperatesOn (if signed then 5 else 4) w source negated length) :
    m.fetched = .instruction (Cpu.multiplication w source signed negated) length := by
  obtain ⟨p, value, rfl, fetched⟩ := fetched_of_operatesOn stands (by cases signed <;> decide)
  rw [fetched]
  cases signed <;> rfl

theorem fetched_division
    (stands : m.OperatesOn (if signed then 7 else 6) w source negated length) :
    m.fetched = .instruction (Cpu.division w source signed negated) length := by
  obtain ⟨p, value, rfl, fetched⟩ := fetched_of_operatesOn stands (by cases signed <;> decide)
  rw [fetched]
  cases signed <;> rfl

/-- A product is stored in the double accumulator. -/
theorem exists_leaves_of_multiplication (running : m.cpu.halted = false)
    (stands : m.OperatesOn (if signed then 5 else 4) w source negated length) :
    ∃ high low : w.Value,
      m.Leaves length w high low (m.cpu.flags.withWide (high != extension signed low)) ∧
      reading signed (high ++ low) = signFactor signed negated *
        (reading signed (m.cpu.accumulator w) * reading signed (m.cpu.read w source)) := by
  have step := step_of_fetched running (fetched_multiplication stands)
  obtain ⟨high, low, product, execute⟩ :=
    (m.cpuBehind length).exists_product w source signed negated
  rw [execute] at step
  rw [cpuBehind, Cpu.accumulator_relocate, Cpu.read_relocate] at product
  exact ⟨high, low, step, product⟩

/-- A division that has no result leaves everything to the interrupt. -/
theorem step_of_divide?_eq_none (running : m.cpu.halted = false)
    (stands : m.OperatesOn (if signed then 7 else 6) w source negated length)
    (none : divide? signed negated (m.cpu.wide w) (m.cpu.read w source) = none) :
    m.step = concluded ({ m with cpu := m.cpuBehind length, pending := .none }.raise 0) := by
  have step := step_of_fetched running (fetched_division stands)
  rw [Cpu.execute_division, cpuBehind, Cpu.wide_relocate, Cpu.read_relocate, none] at step
  exact step

/-- Otherwise it leaves its result. -/
theorem leaves_of_divide?_eq_some (running : m.cpu.halted = false)
    (stands : m.OperatesOn (if signed then 7 else 6) w source negated length) {q r : w.Value}
    (found : divide? signed negated (m.cpu.wide w) (m.cpu.read w source) = some (r ++ q)) :
    m.Leaves length w r q m.cpu.flags := by
  have step := step_of_fetched running (fetched_division stands)
  rw [Cpu.execute_division, cpuBehind, Cpu.wide_relocate, Cpu.read_relocate, found] at step
  exact step

/-- What the double accumulator holds afterwards. -/
theorem Leaves.wide {high low : w.Value} {f : Flags} (leaves : m.Leaves length w high low f) :
    m.step.2.cpu.wide w = high ++ low := by
  rw [leaves]
  exact Cpu.wide_setWide _ w _

/-- Multiplications and divisions, with a sign and without. The product is exact, negated if the
factors have a sign and a repeat prefix is there, and CF and OF are set if its upper half is not the
extension of the lower one. A division that has a divisor other than zero and a quotient that fits,
negated under the same condition, leaves quotient and remainder and no trace in the flags. Any other
delivers interrupt 0 with the processor as it was, but for IP. And without a repeat prefix, whatever
has come in between, a product that is divided by the value of one factor gives the other one. -/
theorem step_multiply_divide (running : m.cpu.halted = false) (w : Width) (source : Place)
    (signed negated : Bool) (length : Nat) :
    let y := m.cpu.read w source
    let dividend := reading signed (m.cpu.wide w)
    let quotient := dividend.tdiv (reading signed y)
    let factor := signFactor signed negated
    (m.OperatesOn (if signed then 5 else 4) w source negated length →
      ∃ high low : w.Value,
        m.Leaves length w high low (m.cpu.flags.withWide (high != extension signed low)) ∧
        reading signed (high ++ low) =
          factor * (reading signed (m.cpu.accumulator w) * reading signed y)) ∧
    (m.OperatesOn (if signed then 7 else 6) w source negated length →
      (y = 0 ∨ ¬Fits signed w.bits (factor * quotient) →
        m.step = concluded ({ m with cpu := m.cpuBehind length, pending := none }.raise 0)) ∧
      (y ≠ 0 → Fits signed w.bits (factor * quotient) →
        ∃ q r : w.Value, m.Leaves length w r q m.cpu.flags ∧
          reading signed q = factor * quotient ∧
          TruncatedDivision dividend (reading signed y) quotient (reading signed r))) ∧
    (m.OperatesOn (if signed then 5 else 4) w source negated length →
      (signed && negated) = false → y ≠ 0 →
      ∀ (m' : Machine World) (source' : Place) (negated' : Bool) (length' : Nat),
        m'.cpu.halted = false →
        m'.OperatesOn (if signed then 7 else 6) w source' negated' length' →
        (signed && negated') = false → m'.cpu.wide w = m.step.2.cpu.wide w →
        m'.cpu.read w source' = y →
        m'.Leaves length' w 0 (m.cpu.accumulator w) m'.cpu.flags) := by
  intro y dividend quotient factor
  have pos := Nat.zero_lt_of_lt w.four_lt_bits
  refine ⟨exists_leaves_of_multiplication running, fun stands => ⟨fun fault => ?_,
    fun nonzero fits => ?_⟩, ?_⟩
  · exact step_of_divide?_eq_none running stands (divide?_of_fault pos fault)
  · obtain ⟨q, r, found, hq, hr⟩ := divide?_of_fits pos nonzero fits
    refine ⟨q, r, leaves_of_divide?_eq_some running stands found, hq, ?_⟩
    rw [hr]
    exact truncatedDivision dividend (mt (reading_eq_zero_iff signed y).mp nonzero)
  · intro stands plain nonzero m' source' negated' length' running' stands' plain' kept same
    obtain ⟨high, low, leaves, product⟩ := exists_leaves_of_multiplication running stands
    rw [signFactor, plain, if_neg Bool.false_ne_true, Int.one_mul] at product
    refine leaves_of_divide?_eq_some running' stands' ?_
    rw [kept, leaves.wide, same]
    exact divide?_of_product pos nonzero plain' product

/-- A signed quotient of 128 does not fit into a byte, but behind a repeat prefix it does, for it is
negated. -/
theorem step_multiply_divide_of_negated_quotient :
    let start := booted [0xF3, 0xF6, 0xF9]
    let m := { start with
      cpu := { start.cpu with registers := { start.cpu.registers with ax := 128, cx := 1 } } }
    ∃ q r : Byte, m.Leaves 3 .byte r q m.cpu.flags ∧ q.toInt = -128 := by
  intro start m
  have holds : m.code.Holds ([0xF3] ++ [0xF6, 0xF9]) := code_holds_store (m := m) rfl (by decide)
  have stands : m.OperatesOn 7 .byte (.register 1) true 3 :=
    ⟨[0xF3], 0xF9, [], by decide, by decide, rfl, rfl, holds, rfl,
      iff_of_true rfl (.inr (.inr (.head _))), rfl⟩
  have running : m.cpu.halted = false := rfl
  have divisor : m.cpu.read .byte (.register 1) = 1 := rfl
  have dividend : m.cpu.wide .byte = 128 := rfl
  clear_value m
  obtain ⟨_, divides, _⟩ := step_multiply_divide running .byte (.register 1) true true 3
  rw [divisor, dividend] at divides
  obtain ⟨q, r, leaves, quotient, _⟩ := (divides stands).2 (by decide) (by decide)
  exact ⟨q, r, leaves, quotient⟩

end Machine

end I8086
