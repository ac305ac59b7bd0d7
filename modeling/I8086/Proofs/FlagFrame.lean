import I8086.Proofs.Confinement
import I8086.Proofs.Operation

/-!
# The flags that an instruction sets

`Instruction.flagsSet` lists, for the state in which an instruction is executed, the flags that it
may change. All others survive it, so that a carry outlives the counting of a loop and a direction
the string operations that heed it. What remains of a step is again the delivery of an interrupt:
the routine of a program starts with TF and IF clear, and nothing else about the flags is new.
-/

namespace I8086

/-- All flags. -/
def Flag.all : List Flag :=
  [.carry, .parity, .aux, .zero, .sign, .trap, .interrupt, .direction, .overflow]

theorem Flag.mem_all (flag : Flag) : flag ∈ all := by
  cases flag <;> decide

/-! ## Flags that follow from a result -/

namespace Flags

/-- The flags that describe a result. -/
def ofResult : List Flag := [.zero, .sign, .parity]

/-- The flags that a bitwise operation sets. -/
def ofLogical : List Flag := .carry :: .overflow :: ofResult

/-- The flags that a sum or difference sets. -/
def ofSum : List Flag := .aux :: ofLogical

variable {n : Nat} {f : Flags} {flag : Flag}

theorem get_withResult (v : BitVec n) (kept : flag ∉ ofResult) :
    (f.withResult v).get flag = f.get flag := by
  cases flag <;> first | rfl | exact absurd (by decide) kept

theorem get_withLogical (v : BitVec n) (kept : flag ∉ ofLogical) :
    (f.withLogical v).get flag = f.get flag := by
  cases flag <;> first | rfl | exact absurd (by decide) kept

theorem get_withSum (x y : BitVec n) (s : Sum n) (kept : flag ∉ ofSum) :
    (f.withSum x y s).get flag = f.get flag := by
  cases flag <;> first | rfl | exact absurd (by decide) kept

theorem get_withWide (wide : Bool) (kept : flag ∉ [Flag.carry, .overflow]) :
    (f.withWide wide).get flag = f.get flag := by
  cases flag <;> first | rfl | exact absurd (by decide) kept

theorem get_unpackLow (b : Byte) (kept : flag ∉ .aux :: .carry :: ofResult) :
    (f.unpackLow b).get flag = f.get flag := by
  cases flag <;> first | rfl | exact absurd (by decide) kept

end Flags

/-- The flags that an operation sets: bitwise ones keep AF. -/
def AluOp.flagsSet : AluOp → List Flag
  | add | adc | sub | sbb | cmp => Flags.ofSum
  | or | and | xor => Flags.ofLogical

/-- The flags that a shift by so many positions sets: none if it is by none; rotates tell nothing
about their result; and OF is set by single positions only. -/
def ShiftOp.flagsSet (op : ShiftOp) (count : Nat) : List Flag :=
  if count = 0 then []
  else
    .carry :: (if op.isRotate then [] else Flags.ofResult) ++
      (if count = 1 then [.overflow] else [])

/-- The flags that an instruction may change when it is executed in this state. -/
def Instruction.flagsSet (c : Cpu) : Instruction → List Flag
  | .alu _ op _ _ => op.flagsSet
  | .test _ _ _ => Flags.ofLogical
  | .inc _ _ | .dec _ _ => .aux :: .overflow :: Flags.ofResult
  | .neg _ _ => Flags.ofSum
  | .mul _ _ | .imul _ _ _ => [.carry, .overflow]
  | .shift _ op _ count => op.flagsSet (count.positions c)
  | .daa | .das | .sahf => .aux :: .carry :: Flags.ofResult
  | .aaa | .aas => [.aux, .carry]
  | .aam _ | .aad _ => Flags.ofResult
  | .popf | .iret => Flag.all
  | .string _ op _ _ => if op.compares then Flags.ofSum else []
  | .setFlag flag _ => [flag]
  | .cmc => [.carry]
  | .not _ _ | .div _ _ | .idiv _ _ _ | .cbw | .cwd | .mov _ _ _ | .movFromSegment _ _
  | .movToSegment _ _ | .xchg _ _ _ | .lea _ _ | .loadPointer _ _ _ | .lahf | .xlat _
  | .input _ _ | .output _ _ | .push _ | .pop _ | .pushSegment _ | .popSegment _ | .pushf
  | .jumpIf _ _ _ | .loop _ _ | .jcxz _ | .jump _ | .jumpFar _ _ | .jumpTo _
  | .jumpToPointer _ | .call _ | .callFar _ _ | .callTo _ | .callToPointer _ | .ret _ _
  | .interrupt _ | .into | .wait | .esc | .hlt => []

/-! ## All other flags survive -/

section Kept

variable {n : Nat} {f : Flags} {flag : Flag}

theorem AluOp.get_apply {op : AluOp} (x y : BitVec n) (kept : flag ∉ op.flagsSet) :
    (op.apply f x y).2.get flag = f.get flag := by
  cases op with
  | add | adc | sub | sbb | cmp => exact Flags.get_withSum x y _ kept
  | or | and | xor => exact Flags.get_withLogical _ kept

theorem get_increment (x : BitVec n) (kept : flag ∉ .aux :: .overflow :: Flags.ofResult) :
    (increment f x).2.get flag = f.get flag := by
  cases flag <;> first | rfl | exact absurd (by decide) kept

theorem get_decrement (x : BitVec n) (kept : flag ∉ .aux :: .overflow :: Flags.ofResult) :
    (decrement f x).2.get flag = f.get flag := by
  cases flag <;> first | rfl | exact absurd (by decide) kept

/-- A rotate sets CF, and OF if it goes one position; a shift also tells about its result. -/
theorem ShiftOp.get_apply {op : ShiftOp} (x : BitVec n) {count : Nat}
    (kept : flag ∉ op.flagsSet count) : (op.apply f x count).2.get flag = f.get flag := by
  rw [flagsSet] at kept
  rw [apply]
  split
  · rfl
  · rename_i moves
    rw [if_neg moves, List.cons_append, List.mem_cons, List.mem_append, not_or, not_or] at kept
    obtain ⟨carry, result, overflow⟩ := kept
    have moved (s : Shifted n) : ({ f with
        carry := s.carry
        overflow := if count = 1 then op.overflow x s else f.overflow } : Flags).get flag =
          f.get flag := by
      cases flag with
      | carry => exact absurd rfl carry
      | overflow =>
          have many : count ≠ 1 := fun one => overflow (by rw [if_pos one]; exact .head _)
          exact if_neg many
      | _ => rfl
    cases rotates : op.isRotate with
    | true => exact moved _
    | false =>
        rw [rotates, if_neg Bool.false_ne_true] at result
        exact (Flags.get_withResult _ result).trans (moved _)

namespace Decimal

theorem get_adjusted (f : Flags) (v : Byte) (low high : Bool)
    (kept : flag ∉ .aux :: .carry :: Flags.ofResult) :
    ({ f.withResult v with aux := low, carry := high } : Flags).get flag = f.get flag := by
  cases flag <;> first | rfl | exact absurd (by decide) kept

theorem get_unpacked (f : Flags) (adjust : Bool) (kept : flag ∉ [Flag.aux, .carry]) :
    ({ f with aux := adjust, carry := adjust } : Flags).get flag = f.get flag := by
  cases flag <;> first | rfl | exact absurd (by decide) kept

end Decimal

end Kept

namespace Cpu

variable (c : Cpu)

@[simp] theorem flags_write (w : Width) (p : Place) (v : w.Value) :
    (c.write w p v).flags = c.flags := by
  cases p <;> cases w <;> rfl

@[simp] theorem flags_writeWithFlags (w : Width) (p : Place) (result : w.Value × Flags) :
    (c.writeWithFlags w p result).flags = result.2 :=
  flags_write _ w p result.1

@[simp] theorem flags_setWide (w : Width) (v : BitVec (w.bits + w.bits)) :
    (c.setWide w v).flags = c.flags := by
  cases w <;> rfl

@[simp] theorem flags_popPlace (target : Place) : (c.popPlace target).flags = c.flags := by
  cases target <;> rfl

@[simp] theorem flags_pushPlace (source : Place) : (c.pushPlace source).flags = c.flags := by
  rw [pushPlace]
  split <;> rfl

@[simp] theorem flags_ret (far : Bool) (release : Word) :
    (c.ret far release).flags = c.flags := by
  cases far <;> rfl

@[simp] theorem flags_jumpWhen (taken : Bool) (d : Word) :
    (c.jumpWhen taken d).flags = c.flags := by
  cases taken <;> rfl

@[simp] theorem flags_divided (w : Width) (result : Option (BitVec (w.bits + w.bits))) :
    (c.divided w result).1.flags = c.flags := by
  cases result with
  | none => rfl
  | some v => exact c.flags_setWide w v

variable {c} {flag : Flag}

/-- One element of a string sets flags only by a comparison. -/
theorem get_flags_stringElement {w : Width} {op : StringOp} {source : Segment}
    (kept : flag ∉ if op.compares then Flags.ofSum else []) :
    (c.stringElement w op source).flags.get flag = c.flags.get flag := by
  cases op with
  | cmps | scas => exact Flags.get_withSum _ _ _ kept
  | movs | stos | lods => cases w <;> rfl

/-- So do all elements. -/
theorem get_flags_stringElements {w : Width} {op : StringOp} {source : Segment} {r : Repetition}
    (kept : flag ∉ if op.compares then Flags.ofSum else []) (count : Nat) :
    (stringElements w op source r count c).flags.get flag = c.flags.get flag := by
  induction count generalizing c with
  | zero => rfl
  | succ count ih =>
      rw [stringElements_succ]
      dsimp only
      split
      · exact get_flags_stringElement kept
      · exact ih.trans (get_flags_stringElement kept)

/-- An instruction keeps all flags but those that it sets. -/
theorem get_flags_execute {i : Instruction} (kept : flag ∉ i.flagsSet c) :
    (c.execute i).1.flags.get flag = c.flags.get flag := by
  cases i with
  | alu w op target source =>
      rw [execute, alu]
      dsimp only
      split
      · exact AluOp.get_apply _ _ kept
      · rw [flags_writeWithFlags]
        exact AluOp.get_apply _ _ kept
  | test w left right => exact Flags.get_withLogical _ kept
  | inc w target =>
      rw [execute, flags_writeWithFlags]
      exact get_increment _ kept
  | dec w target =>
      rw [execute, flags_writeWithFlags]
      exact get_decrement _ kept
  | neg w target =>
      rw [execute, flags_writeWithFlags]
      exact Flags.get_withSum _ _ _ kept
  | mul w source | imul w source negated =>
      refine (congrArg (Flags.get · flag) (flags_setWide _ w _)).trans ?_
      exact Flags.get_withWide _ kept
  | shift w op target count =>
      rw [execute, shift_eq]
      split
      · rfl
      · rw [flags_writeWithFlags]
        exact ShiftOp.get_apply _ kept
  | daa | das => exact Decimal.get_adjusted _ _ _ _ kept
  | aaa | aas => exact Decimal.get_unpacked _ _ kept
  | aam base =>
      rw [execute]
      cases digits : Decimal.split? c.registers.ax base c.flags with
      | some result =>
          obtain ⟨⟨q, r⟩, _, rfl⟩ := Option.map_eq_some_iff.mp digits
          exact Flags.get_withResult _ kept
      | none => exact Flags.get_withResult _ kept
  | aad base => exact Flags.get_withResult _ kept
  | sahf => exact Flags.get_unpackLow _ kept
  | popf | iret => exact absurd (Flag.mem_all flag) kept
  | string w op source repetition =>
      cases repetition with
      | none => exact get_flags_stringElement kept
      | some r => exact get_flags_stringElements kept _
  | setFlag other v => exact Flags.get_set_ne _ _ (List.ne_of_not_mem_cons kept)
  | cmc => exact Flags.get_set_ne _ _ (List.ne_of_not_mem_cons kept)
  | not | mov | movFromSegment | xchg | div | idiv | push | pop | jumpIf | jcxz | ret =>
      simp only [execute, xchg, flags_write, flags_divided, flags_pushPlace, flags_popPlace,
        flags_jumpWhen, flags_ret]
  | loop kind d =>
      rw [execute, loop_eq, flags_jumpWhen]
      rfl
  | _ => rfl

end Cpu

/-! ## The flags that control the processor -/

namespace Flag

/-- TF, IF and DF control the processor; no result has a part in them. -/
def isControl : Flag → Bool
  | trap | interrupt | direction => true
  | _ => false

end Flag

namespace Instruction

/-- The instructions that are there to change TF, IF or DF: `POPF`, `IRET`, `CLI`, `STI`, `CLD` and
`STD`. -/
def setsControl : Instruction → Bool
  | popf | iret | setFlag .interrupt _ | setFlag .direction _ => true
  | _ => false

theorem flagsSet_relocate (i : Instruction) (c : Cpu) (x y : Word) :
    i.flagsSet (c.relocate x y) = i.flagsSet c := by
  cases i <;> simp only [flagsSet, ShiftCount.positions_relocate]

/-- A shift sets CF, OF if it goes a single position, and unless it rotates the flags that describe
its result. -/
theorem mem_flagsSet_shift {op : ShiftOp} {count : Nat} {flag : Flag}
    (set : flag ∈ op.flagsSet count) :
    flag = .carry ∨ flag = .overflow ∧ count = 1 ∨
      flag ∈ Flags.ofResult ∧ op.isRotate = false := by
  rw [ShiftOp.flagsSet] at set
  split at set
  · cases set
  · rw [List.cons_append, List.mem_cons, List.mem_append] at set
    rcases set with carry | result | overflow
    · exact .inl carry
    · split at result
      · cases result
      · rename_i shifts
        exact .inr (.inr ⟨result, Bool.eq_false_iff.mpr shifts⟩)
    · split at overflow
      · rename_i one
        exact .inr (.inl ⟨List.mem_singleton.mp overflow, one⟩)
      · cases overflow

/-- Shifts set no other flags than sums do. -/
theorem mem_ofSum_of_shift {op : ShiftOp} {count : Nat} {flag : Flag}
    (set : flag ∈ op.flagsSet count) : flag ∈ Flags.ofSum := by
  rcases mem_flagsSet_shift set with rfl | ⟨rfl, _⟩ | ⟨result, _⟩
  · decide
  · decide
  · exact .tail _ (.tail _ (.tail _ result))

/-- An instruction sets flags as sums do, or controls the processor, or sets or inverts one flag. -/
theorem mem_flagsSet {i : Instruction} {c : Cpu} {flag : Flag} (set : flag ∈ i.flagsSet c) :
    flag ∈ Flags.ofSum ∨ i = .popf ∨ i = .iret ∨ ∃ v, i = .setFlag flag v := by
  cases i with
  | alu w op =>
      cases op with
      | add | adc | sub | sbb | cmp => exact .inl set
      | or | and | xor => exact .inl (.tail _ set)
  | shift => exact .inl (mem_ofSum_of_shift set)
  | string w op =>
      cases op with
      | cmps | scas => exact .inl set
      | movs | stos | lods => cases set
  | popf => exact .inr (.inl rfl)
  | iret => exact .inr (.inr (.inl rfl))
  | setFlag other v =>
      obtain rfl := List.mem_singleton.mp set
      exact .inr (.inr (.inr ⟨v, rfl⟩))
  | neg => exact .inl set
  | test => exact .inl (.tail _ set)
  | inc | dec | mul | imul | daa | das | sahf | aaa | aas | aam | aad | cmc =>
      revert set
      cases flag <;> first | exact fun _ => .inl (by decide) | nofun
  | _ => cases set

variable {op : Opcode} {p : Prefixes} {code : Code} {flag : Flag} {v : Bool} {length : Nat}

theorem ofUnary_ne_setFlag (w : Width) (p : Prefixes) (place : Place) (x : w.Value)
    (n : RegisterNumber) : ofUnary w p place x n ≠ .setFlag flag v := by
  match n with
  | 0 | 1 | 2 | 3 | 4 | 5 | 6 | 7 => nofun

theorem decodeModRM?_ne_setFlag {reg : RegisterNumber} {place : Place} {next : Nat} :
    decodeModRM? op p reg place code next ≠ some (.setFlag flag v, length) := by
  intro decoded
  cases op with
  | unaryGroup w =>
      injection decoded with pair
      exact absurd (congrArg Prod.fst pair) (ofUnary_ne_setFlag w p place _ reg)
  | aluGroup w signExtended => cases w <;> cases signExtended <;> cases decoded
  | stepGroup | indirectGroup | movFromSegment | movToSegment =>
      cases place <;>
        match reg with
        | 0 | 1 | 2 | 3 | 4 | 5 | 6 | 7 => cases decoded
  | movImmediateGroup | popGroup =>
      simp only [decodeModRM?] at decoded
      split at decoded <;> cases decoded
  | lea | les | lds => cases place <;> cases decoded
  | alu _ _ toRegister | mov _ toRegister => cases toRegister <;> cases decoded
  | _ => cases decoded

/-- Only CF, IF and DF have opcodes that set and clear them. -/
theorem ne_trap_of_decode? (decoded : decode? op p code = some (.setFlag flag v, length)) :
    flag ≠ .trap := by
  cases modRM : op.hasModRM with
  | true =>
      rw [decode?_of_hasModRM modRM] at decoded
      exact absurd decoded decodeModRM?_ne_setFlag
  | false =>
      cases op with
      | clc | stc | cli | sti | cld | std =>
          cases decoded
          nofun
      | movAccumulator _ taken | input _ taken | output _ taken | ret _ taken =>
          cases taken <;> cases decoded
      | _ => first
        | exact absurd modRM (show true ≠ false by decide)
        | cases decoded

end Instruction

/-! ## Steps -/

namespace Machine

variable {World : Type} {m : Machine World} {i : Instruction} {length : Nat} {flag : Flag}

/-- Of the instructions that are fetched only those that are there to do so change TF, IF or DF. -/
theorem setsControl_of_fetched (fetched : m.fetched = .instruction i length)
    (set : flag ∈ i.flagsSet m.cpu) (control : flag.isControl = true) : i.setsControl = true := by
  rcases Instruction.mem_flagsSet set with sum | rfl | rfl | ⟨v, rfl⟩
  · have plain : ∀ flag ∈ Flags.ofSum, flag.isControl = false := by decide
    rw [plain flag sum] at control
    cases control
  · rfl
  · rfl
  · obtain ⟨bytes, n, _, _, _, decoded, _⟩ := decode?_of_fetched fetched
    simp only [Code.decode?, Option.map_eq_some_iff, Option.bind_eq_some_iff] at decoded
    obtain ⟨⟨j, rest⟩, ⟨op, _, operands⟩, pair⟩ := decoded
    injection pair with same _
    subst same
    have plain := Instruction.ne_trap_of_decode? operands
    cases flag with
    | interrupt | direction => rfl
    | trap => exact absurd rfl plain
    | _ => cases control

/-- Execution behind the bytes of an instruction keeps what it keeps in front of them. -/
theorem get_flags_executed (kept : flag ∉ i.flagsSet m.cpu) (length : Nat) :
    (m.executed i length).cpu.flags.get flag = m.cpu.flags.get flag := by
  rw [cpu_executed]
  refine Cpu.get_flags_execute ?_
  rwa [Instruction.flagsSet_relocate]

/-- Without a handler an interrupt keeps all flags, or clears TF and IF for the routine that it
enters and keeps the others. -/
theorem flags_raise {vector : Byte} (free : m.bus.target? vector = none) :
    (m.raise vector).2.cpu.flags =
      if m.cpu.readVector vector = (0, 0) then m.cpu.flags
      else { m.cpu.flags with interrupt := false, trap := false } := by
  split
  · rename_i empty
    rw [raise_of_empty free empty]
  · rename_i entry
    rw [raise_of_entry free entry]
    rfl

/-- A routine of the program is entered for an interrupt that the instruction at hand asks for. -/
def Enters (m : Machine World) (i : Instruction) : Prop :=
  ∃ vector, (m.cpu.execute i).2 = .interrupt vector ∧ m.cpu.readVector vector ≠ (0, 0)

theorem flags_perform_of_not_enters (unserved : ∀ vector, (m.cpu.execute i).2 = .interrupt vector →
      m.bus.target? vector = none) (stays : ¬m.Enters i) (length : Nat) :
    (m.perform i length).2.cpu.flags = (m.executed i length).cpu.flags := by
  rw [perform_eq, flags_concluded, signal_eq]
  cases asks : (m.cpu.execute i).2 with
  | next => rfl
  | halt => rfl
  | interrupt vector =>
      have empty : m.cpu.readVector vector = (0, 0) :=
        Classical.byContradiction fun entry => stays ⟨vector, asks, entry⟩
      refine (flags_raise (m := m.executed i length) (unserved vector asks)).trans (if_pos ?_)
      rw [readVector_executed asks, empty]

theorem flags_perform_of_enters (unserved : ∀ vector, (m.cpu.execute i).2 = .interrupt vector →
      m.bus.target? vector = none) (enters : m.Enters i) (length : Nat) :
    (m.perform i length).2.cpu.flags =
      { (m.executed i length).cpu.flags with interrupt := false, trap := false } := by
  obtain ⟨vector, asks, entry⟩ := enters
  rw [perform_eq, flags_concluded, signal_eq, asks]
  refine (flags_raise (m := m.executed i length) (unserved vector asks)).trans (if_neg ?_)
  rwa [readVector_executed asks]

/-- The frame of an instruction with the interrupt that it may ask for. -/
theorem get_flags_perform (unserved : ∀ vector, (m.cpu.execute i).2 = .interrupt vector →
      m.bus.target? vector = none) (kept : flag ∉ i.flagsSet m.cpu)
    (entered : m.Enters i → flag ≠ .trap ∧ flag ≠ .interrupt) (length : Nat) :
    (m.perform i length).2.cpu.flags.get flag = m.cpu.flags.get flag := by
  refine Eq.trans ?_ (get_flags_executed kept length)
  by_cases enters : m.Enters i
  · rw [flags_perform_of_enters unserved enters]
    obtain ⟨trap, interrupt⟩ := entered enters
    cases flag with
    | trap => exact absurd rfl trap
    | interrupt => exact absurd rfl interrupt
    | _ => rfl
  · rw [flags_perform_of_not_enters unserved enters]

theorem enters_markStart : m.markStart.Enters i ↔ m.Enters i := by
  simp only [Enters, signal_markStart, readVector_markStart]

theorem flags_markStart : m.markStart.cpu.flags = m.cpu.flags := by
  rw [cpu_markStart, Cpu.flags_relocate]

/-- A step that carries out no instruction keeps all flags. -/
theorem flags_step_of_none (none : ∀ i length, m.fetched ≠ .instruction i length) :
    m.step.2.cpu.flags = m.cpu.flags := by
  cases running : m.cpu.halted with
  | true => rw [step_of_halted running]
  | false =>
      cases fetched : m.fetched with
      | prefixes p length =>
          rw [step_of_prefixes running fetched]
          exact flags_markStart
      | undefined opcode =>
          rw [step_of_undefined running fetched]
          exact flags_markStart
      | instruction i length => exact absurd fetched (none i length)

/-- The flags that steps leave alone. In a step that calls no handler of the host a flag changes
only if the instruction at hand sets it, or if a routine of the program is entered, which clears TF
and IF. Of all instructions that are ever fetched only `POPF`, `IRET`, `CLI`, `STI`, `CLD` and `STD`
set TF, IF or DF. Steps that only read prefixes, that reject an undefined encoding, or that find the
processor halted change no flag at all. -/
theorem step_flags
    (unserved : ∀ i length vector, m.fetched = .instruction i length →
      (m.cpu.execute i).2 = .interrupt vector → m.bus.target? vector = none) :
    let before := m.cpu.flags
    let after := m.step.2.cpu.flags
    (∀ flag, after.get flag ≠ before.get flag →
      m.cpu.halted = false ∧ ∃ i length, m.fetched = .instruction i length ∧
        (flag ∈ i.flagsSet m.cpu ∨ m.Enters i ∧ (flag = .trap ∨ flag = .interrupt))) ∧
    (∀ flag i length, m.fetched = .instruction i length → flag ∈ i.flagsSet m.cpu →
      flag.isControl = true → i.setsControl = true) ∧
    (∀ i length, m.cpu.halted = false → m.fetched = .instruction i length → m.Enters i →
      after.trap = false ∧ after.interrupt = false) := by
  have unserved' (i : Instruction) (length : Nat) (fetched : m.fetched = .instruction i length)
      (vector : Byte) (asks : (m.markStart.cpu.execute i).2 = .interrupt vector) :
      m.markStart.bus.target? vector = none := by
    rw [signal_markStart] at asks
    rw [bus_markStart]
    exact unserved i length vector fetched asks
  refine ⟨fun flag changed => ?_, fun flag i length => setsControl_of_fetched,
    fun i length running fetched enters => ?_⟩
  · have carried : ∃ i length, m.fetched = .instruction i length := by
      refine Classical.byContradiction fun none => changed ?_
      rw [flags_step_of_none fun i length fetched => none ⟨i, length, fetched⟩]
    obtain ⟨i, length, fetched⟩ := carried
    cases running : m.cpu.halted with
    | true => exact absurd (by rw [step_of_halted running]) changed
    | false =>
        refine ⟨rfl, i, length, fetched, Classical.byContradiction fun outside => changed ?_⟩
        obtain ⟨kept, delivered⟩ := not_or.mp outside
        have marked := congrArg (Flags.get · flag) (flags_markStart (m := m))
        rw [step_of_instruction running fetched]
        refine (get_flags_perform (unserved' i length fetched) ?_ (fun enters => ?_) length).trans
          marked
        · rwa [cpu_markStart, Instruction.flagsSet_relocate]
        · have entered := enters_markStart.mp enters
          exact ⟨fun trap => delivered ⟨entered, .inl trap⟩,
            fun interrupt => delivered ⟨entered, .inr interrupt⟩⟩
  · rw [step_of_instruction running fetched,
      flags_perform_of_enters (unserved' i length fetched) (enters_markStart.mpr enters)]
    exact ⟨rfl, rfl⟩

/-- A division by zero in `AAM`, for which the vector table has a routine: TF and IF are cleared,
and DF and CF, which were set as well, survive. -/
theorem step_flags_of_division_by_zero :
    let start := booted [0xD4, 0x00]
    let m := { start with
      cpu := { start.cpu with
        flags := { trap := true, interrupt := true, direction := true, carry := true }
        memory := (Memory.zero.store 0 [0x00, 0x00, 0x00, 0x10]).store 0xFFFF0 [0xD4, 0x00] } }
    let after := m.step.2.cpu.flags
    after.trap = false ∧ after.interrupt = false ∧ after.get .direction = true ∧
      after.get .carry = true := by
  intro start m after
  have holds : m.code.Holds ([] ++ [0xD4, 0x00]) := code_holds_store (m := m) rfl (by decide)
  have fetched : m.fetched = .instruction (.aam 0) 2 :=
    fetched_of_decode? holds nofun (by decide) rfl
  have enters : m.Enters (.aam 0) := ⟨0, rfl, by decide⟩
  have running : m.cpu.halted = false := rfl
  have free (vector : Byte) : m.bus.target? vector = none := rfl
  have direction : m.cpu.flags.get .direction = true := rfl
  have carry : m.cpu.flags.get .carry = true := rfl
  -- From here on only these facts about the machine count, not what its memory is made of.
  clear_value m
  obtain ⟨changes, _, clears⟩ := step_flags fun _ _ vector _ _ => free vector
  obtain ⟨trap, interrupt⟩ := clears _ _ running fetched enters
  have kept (flag : Flag) (other : flag ∉ [Flag.zero, .sign, .parity, .trap, .interrupt]) :
      after.get flag = m.cpu.flags.get flag := by
    refine Classical.byContradiction fun changed => other ?_
    obtain ⟨_, i, length, same, set | ⟨_, rfl | rfl⟩⟩ := changes flag changed
    · rw [fetched] at same
      cases same
      exact List.mem_append_left _ set
    · decide
    · decide
  exact ⟨trap, interrupt, (kept .direction (by decide)).trans direction,
    (kept .carry (by decide)).trans carry⟩

end Machine

end I8086
