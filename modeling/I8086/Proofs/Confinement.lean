import I8086.Proofs.Footprint
import I8086.Proofs.InstructionPointer

/-!
# Writes to memory are confined

An instruction changes no byte outside `Instruction.Writes`. What remains of a step is the delivery
of an interrupt that the instruction may ask for: a routine of the program is entered with three
words on the stack, and nothing else is written, unless a handler of the host serves it.
-/

namespace I8086

/-! ## Exchanges -/

namespace Instruction

/-- An exchange, if the instruction is one, has a register for its second operand. -/
def exchangesRegister : Instruction → Bool
  | xchg _ _ (.memory _) => false
  | _ => true

theorem exchangesRegister_ofUnary (w : Width) (p : Prefixes) (target : Place) (v : w.Value)
    (n : RegisterNumber) : (ofUnary w p target v n).exchangesRegister = true := by
  match n with
  | 0 | 1 | 2 | 3 | 4 | 5 | 6 | 7 => rfl

variable {op : Opcode} {p : Prefixes} {code : Code} {i : Instruction} {length : Nat}

theorem exchangesRegister_of_decodeModRM? {reg : RegisterNumber} {place : Place} {next : Nat}
    (decoded : decodeModRM? op p reg place code next = some (i, length)) :
    i.exchangesRegister = true := by
  fun_cases decodeModRM? op p reg place code next <;>
    simp_all only [decodeModRM?, Option.some.injEq, Prod.mk.injEq, reduceCtorEq,
      Option.map_eq_some_iff]
  case case22 | case23 =>
      obtain ⟨s, _, rfl, _⟩ := decoded
      rfl
  all_goals obtain ⟨rfl, _⟩ := decoded
  case case7 => exact exchangesRegister_ofUnary _ p place _ reg
  all_goals rfl

theorem exchangesRegister_of_decode? (decoded : decode? op p code = some (i, length)) :
    i.exchangesRegister = true := by
  cases modRM : op.hasModRM with
  | true =>
      rw [decode?_of_hasModRM modRM] at decoded
      exact exchangesRegister_of_decodeModRM? decoded
  | false =>
      cases op with
      | movAccumulator _ taken | input _ taken | output _ taken | ret _ taken =>
          cases taken <;> cases decoded <;> rfl
      | segmentOverride | repeatString | lock => cases decoded
      | _ => first
        | exact absurd modRM (show true ≠ false by decide)
        | cases decoded; rfl

end Instruction

/-- What is fetched exchanges an operand with a register or does not exchange. -/
theorem Machine.exchangesRegister_of_fetched {World : Type} {m : Machine World} {i : Instruction}
    {length : Nat} (fetched : m.fetched = .instruction i length) : i.exchangesRegister = true := by
  unfold Machine.fetched Fetched.ofCode at fetched
  dsimp only at fetched
  split at fetched
  · split at fetched
    · rename_i found
      obtain ⟨op, _, decoded⟩ := Option.bind_eq_some_iff.mp found
      cases fetched
      exact Instruction.exchangesRegister_of_decode? decoded
    · cases fetched
  · cases fetched

namespace Cpu

variable {c : Cpu} {a : Address}

/-! ## Stores -/

theorem get_store {w : Width} {s : Segment} {offset : Word} {v : w.Value}
    (outside : ¬c.Within s offset w.bytes a) :
    (c.store w s offset v).memory.get a = c.memory.get a := by
  have apart (k : Nat) (inside : k < w.bytes) :
      a ≠ c.address s (offset + BitVec.ofNat 16 k) := by
    intro same
    exact outside ⟨k, inside, same⟩
  cases w with
  | byte =>
      have first := apart 0 (by decide)
      rw [BitVec.add_zero] at first
      exact Memory.get_set_ne _ _ first
  | word =>
      have first := apart 0 (by decide)
      rw [BitVec.add_zero] at first
      show (c.writeWord s offset v).memory.get a = _
      have second : a ≠ c.address s (offset + 1) := apart 1 (by decide)
      rw [get_writeWord, if_neg second, if_neg first]

theorem get_writeOperand {w : Width} {o : Operand} {v : w.Value}
    (outside : ¬c.InOperand w o a) : (c.writeOperand w v o).memory.get a = c.memory.get a := by
  cases o with
  | register n => rfl
  | memory s offset => exact get_store outside

theorem get_write {w : Width} {p : Place} {v : w.Value} (outside : ¬c.InPlace w p a) :
    (c.write w p v).memory.get a = c.memory.get a := get_writeOperand outside

theorem get_writeWithFlags {w : Width} {p : Place} {result : w.Value × Flags}
    (outside : ¬c.InPlace w p a) :
    (c.writeWithFlags w p result).memory.get a = c.memory.get a :=
  get_write (c := { c with flags := result.2 }) outside

/-- A pop moves SP, on which no place in memory depends. -/
theorem inOperand_pop (w : Width) (o : Operand) : c.pop.2.InOperand w o = c.InOperand w o := by
  funext a
  cases o with
  | register n => rfl
  | memory s offset => cases s <;> rfl

theorem memory_setWide (w : Width) (v : BitVec (w.bits + w.bits)) :
    (c.setWide w v).memory = c.memory := by
  cases w <;> rfl

theorem memory_divided (w : Width) (result : Option (BitVec (w.bits + w.bits))) :
    (c.divided w result).1.memory = c.memory := by
  cases result with
  | none => rfl
  | some v => exact memory_setWide w v

theorem memory_jumpWhen (taken : Bool) (d : Word) : (c.jumpWhen taken d).memory = c.memory := by
  cases taken <;> rfl

theorem memory_ret (far : Bool) (release : Word) : (c.ret far release).memory = c.memory := by
  cases far <;> rfl

/-! ## String instructions -/

variable {w : Width} {op : StringOp} {source : Segment} {n : Nat}

/-- Only the operations that store reach memory, and they store one element at DI. -/
theorem get_stringElement
    (outside : ¬(op.stores = true ∧ c.Within .es c.registers.di w.bytes a)) :
    (c.stringElement w op source).memory.get a = c.memory.get a := by
  cases op with
  | movs | stos => exact get_store fun inside => outside ⟨rfl, inside⟩
  | cmps | lods | scas => cases w <;> rfl

/-- A repeated operation stores no further than its count reaches. -/
theorem get_stringElements {r : Repetition}
    (outside : ¬(op.stores = true ∧ c.InElements w .es c.registers.di n a)) :
    (stringElements w op source r n c).memory.get a = c.memory.get a := by
  induction n generalizing c with
  | zero => rfl
  | succ n ih =>
      have first : (c.stringElement w op source).memory.get a = c.memory.get a := by
        exact get_stringElement fun ⟨stores, inside⟩ =>
          outside ⟨stores, c.inElements_first inside n.succ_pos⟩
      rw [stringElements_succ]
      dsimp only
      split
      · exact first
      · refine (ih ?_).trans first
        rintro ⟨stores, inside⟩
        exact outside ⟨stores, c.inElements_target (.inl stores) inside⟩

/-! ## All instructions -/

/-- An instruction changes no byte outside its footprint. -/
theorem get_execute {i : Instruction} (exchange : i.exchangesRegister = true)
    (outside : ¬i.Writes c a) :
    (c.execute i).1.memory.get a = c.memory.get a := by
  cases i with
  | alu w op target source =>
      show (c.alu w op target source).memory.get a = _
      unfold alu
      dsimp only
      split
      · rfl
      · rename_i stores
        exact get_writeWithFlags fun inside => outside ⟨Bool.eq_false_iff.mpr stores, inside⟩
  | inc w target | dec w target | neg w target => exact get_writeWithFlags outside
  | not w target | mov w target source => exact get_write outside
  | movFromSegment target s => exact get_write outside
  | shift w op target count =>
      show (c.shift w op target count).memory.get a = _
      rw [shift_eq]
      split
      · rfl
      · rename_i moves
        exact get_writeWithFlags fun inside => outside ⟨moves, inside⟩
  | xchg w target other =>
      cases other with
      | memory e => cases exchange
      | register n => exact get_write outside
  | push source =>
      show (c.pushPlace source).memory.get a = _
      unfold pushPlace
      dsimp only
      split <;> exact get_push _ outside
  | pushSegment s => exact get_push _ outside
  | pushf => exact get_push _ outside
  | pop target =>
      refine get_writeOperand (c := c.pop.2) ?_
      rwa [inOperand_pop]
  | call distance => exact get_enter .near outside
  | callTo target => exact get_enter .near outside
  | callFar cs ip => exact get_enter .far outside
  | callToPointer e => exact get_enter .far outside
  | string w op source repetition =>
      cases repetition with
      | none =>
          exact get_stringElement fun ⟨stores, inside⟩ =>
            outside ⟨stores, c.inElements_first inside Nat.one_pos⟩
      | some r => exact get_stringElements outside
  | mul w source | imul w source negated =>
      rw [execute]
      exact congrArg (·.get a) (memory_setWide w _)
  | div w source | idiv w source negated => exact congrArg (·.get a) (memory_divided w _)
  | jumpIf | jcxz => exact congrArg (·.get a) (memory_jumpWhen _ _)
  | loop => exact congrArg (·.get a) (memory_jumpWhen _ _)
  | ret far release => exact congrArg (·.get a) (memory_ret far release)
  | input w port => cases w <;> rfl
  | aam base =>
      simp only [execute]
      split <;> rfl
  | _ => rfl

end Cpu

/-! ## Steps -/

namespace Machine

variable {World : Type} {m : Machine World} {a : Address}

/-- The bytes that a step may change without the help of a handler: the footprint of the instruction
at hand, and below the top of the stack the three words that a routine of the program is entered
with if the instruction asks for an interrupt. -/
def Writes (m : Machine World) (a : Address) : Prop :=
  ∃ i length, m.fetched = .instruction i length ∧
    (i.Writes m.cpu a ∨
      ∃ vector, (m.cpu.execute i).2 = .interrupt vector ∧ m.cpu.readVector vector ≠ (0, 0) ∧
        m.cpu.UnderTop 6 a)

/-- Executing the instruction behind its bytes has the footprint that it has in front of them. -/
theorem get_executed {i : Instruction} {length : Nat} (exchange : i.exchangesRegister = true)
    (outside : ¬i.Writes m.cpu a) :
    (m.executed i length).cpu.memory.get a = m.cpu.memory.get a := by
  rw [cpu_executed]
  refine Cpu.get_execute exchange ?_
  rwa [Instruction.writes_relocate]

/-- Without a handler an interrupt writes nothing but the frame of its routine. -/
theorem get_raise {vector : Byte} (free : m.bus.target? vector = none)
    (outside : m.cpu.readVector vector ≠ (0, 0) → ¬m.cpu.UnderTop 6 a) :
    (m.raise vector).2.cpu.memory.get a = m.cpu.memory.get a := by
  by_cases empty : m.cpu.readVector vector = (0, 0)
  · rw [raise_of_empty free empty]
  · rw [raise_of_entry free empty]
    exact Cpu.get_enter .interrupt (outside empty)

/-- Performing an instruction that no handler has a part in. -/
theorem get_perform {i : Instruction} {length : Nat} (exchange : i.exchangesRegister = true)
    (unserved : ∀ vector, (m.cpu.execute i).2 = .interrupt vector →
      m.bus.target? vector = none)
    (outside : ¬i.Writes m.cpu a)
    (below : ∀ vector, (m.cpu.execute i).2 = .interrupt vector →
      m.cpu.readVector vector ≠ (0, 0) → ¬m.cpu.UnderTop 6 a) :
    (m.perform i length).2.cpu.memory.get a = m.cpu.memory.get a := by
  rw [perform_eq, memory_concluded, signal_eq]
  cases asks : (m.cpu.execute i).2 with
  | next => exact get_executed exchange outside
  | halt => exact get_executed exchange outside
  | interrupt vector =>
      have top : (m.executed i length).cpu.UnderTop 6 = m.cpu.UnderTop 6 := by
        have kept := Cpu.execute_of_interrupt (m.cpu.advance (BitVec.ofNat 16 length))
          ((m.signal_eq i length).trans asks)
        show Cpu.UnderTop ((m.cpu.advance (BitVec.ofNat 16 length)).execute i).1 6 = _
        rw [kept]
        exact m.cpu.underTop_relocate _ _ 6
      refine (get_raise (m := m.executed i length) (unserved vector asks) ?_).trans
        (get_executed exchange outside)
      rw [readVector_executed asks, top]
      exact below vector asks

/-- Writes to memory are confined. A step that calls no handler of the host changes no byte but
those that its instruction stores and those of the frame that an interrupt leaves on the stack; so
it changes nothing if there are none, and nothing either if it only reads prefixes, rejects an
undefined encoding, or finds the processor halted. -/
theorem step_confined
    (unserved : ∀ i length vector, m.fetched = .instruction i length →
      (m.cpu.execute i).2 = .interrupt vector → m.bus.target? vector = none) :
    (∀ a, m.step.2.cpu.memory.get a ≠ m.cpu.memory.get a →
      m.cpu.halted = false ∧ m.Writes a) ∧
    ((∀ a, ¬m.Writes a) → m.step.2.cpu.memory = m.cpu.memory) := by
  have kept (a : Address) (outside : ¬(m.cpu.halted = false ∧ m.Writes a)) :
      m.step.2.cpu.memory.get a = m.cpu.memory.get a := by
    cases running : m.cpu.halted with
    | true => rw [step_of_halted running]
    | false =>
        have outside : ¬m.Writes a := fun writes => outside ⟨running, writes⟩
        cases fetched : m.fetched with
        | prefixes p length =>
            rw [step_of_prefixes running fetched, keepPrefixes, cpu_markStart]
            rfl
        | undefined opcode =>
            rw [step_of_undefined running fetched, reject, cpu_markStart]
            rfl
        | instruction i length =>
            rw [step_of_instruction running fetched]
            have memory : m.markStart.cpu.memory = m.cpu.memory := by rw [cpu_markStart]; rfl
            rw [← memory]
            refine get_perform (exchangesRegister_of_fetched fetched) ?_ ?_ ?_
            · intro vector asks
              rw [signal_markStart] at asks
              rw [bus_markStart]
              exact unserved i length vector fetched asks
            · intro writes
              rw [cpu_markStart, Instruction.writes_relocate] at writes
              exact outside ⟨i, length, fetched, .inl writes⟩
            · intro vector asks entry under
              rw [signal_markStart] at asks
              rw [readVector_markStart] at entry
              rw [cpu_markStart, Cpu.underTop_relocate] at under
              exact outside ⟨i, length, fetched, .inr ⟨vector, asks, entry, under⟩⟩
  constructor
  · intro a changed
    exact Classical.byContradiction fun outside => changed (kept a outside)
  · intro none
    exact Memory.ext_get fun a => kept a fun ⟨_, writes⟩ => none a writes

/-- A repeated store of two bytes, the first at the end of the extra segment, reaches that byte and
the one at the start of the segment. -/
theorem step_confined_of_wrapping_fill :
    let start := booted [0xF3, 0xAA]
    let m := { start with cpu.registers := { start.cpu.registers with cx := 2, di := 0xFFFF } }
    ∀ a, m.step.2.cpu.memory.get a ≠ m.cpu.memory.get a → a = 0xFFFF ∨ a = 0 := by
  intro start m a changed
  have holds : m.code.Holds ([0xF3] ++ [0xAA]) := code_holds_store (m := m) rfl (by decide)
  have fresh : m.pending = none := rfl
  have registers : m.cpu.registers = { cs := 0xFFFF, cx := 2, di := 0xFFFF } := rfl
  have flags : m.cpu.flags = .clear := rfl
  have free (vector : Byte) : m.bus.target? vector = none := rfl
  -- From here on only these facts about the machine count, not what its memory is made of.
  clear_value m
  have opcode : m.code 1 = 0xAA := holds 1 (by decide)
  have fetched : m.fetched = .instruction (.string .byte .stos .ds (some .whileZero)) 2 := by
    have decoded (p : Prefixes) : (m.code.drop 1).decode? p =
        some (.string .byte .stos p.dataSegment p.repetition, 1) := by
      rw [Code.decode?, Code.drop_apply, opcode]
      rfl
    have found := Fetched.ofCode_of_lt holds.left (by decide)
      (by rw [List.length_singleton, opcode]; decide) (by decide) (m.pending.getD {})
    have effect : (m.pending.getD {}).extend [0xF3] = { repetition := some .whileZero } := by
      rw [fresh]
      rfl
    rwa [List.length_singleton, decoded, effect] at found
  obtain ⟨_, i, length, same, writes⟩ :=
    (step_confined fun _ _ vector _ _ => free vector).1 a changed
  rw [fetched] at same
  injection same with fill
  subst fill
  obtain ⟨-, k, inside, j, first, rfl⟩ | ⟨_, asks, _⟩ := writes
  · have count : k < 2 := by
      rwa [Cpu.elements, registers] at inside
    obtain rfl : j = 0 := Nat.lt_one_iff.mp first
    rw [Cpu.address, Cpu.stride, registers, flags]
    obtain rfl | rfl : k = 0 ∨ k = 1 := by omega
    · exact .inl rfl
    · exact .inr rfl
  · cases asks

end Machine

end I8086
