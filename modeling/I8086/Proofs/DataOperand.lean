import I8086.Proofs.Footprint

/-!
# What an instruction does with its data operand

An instruction has at most one operand in memory whose segment its encoding may choose. `DataUse`
says what becomes of it once the segment is known: a value is loaded, another one may replace it,
and whatever is done besides sees the value and not the segment. So an instruction that has such a
use reaches nothing but its operand through that segment, neither the stack nor the destination of a
string. `Instruction.dataUse?` is the table of these uses, and `Cpu.execute_eq_run` the proof that
it describes execution.
-/

namespace I8086

/-- How an instruction uses a data operand. -/
inductive DataUse where
  /-- A value at an offset. `use` tells what replaces it, if anything, and how execution ends when
  it has been replaced. -/
  | operand (w : Width) (offset : Registers → Word)
      (use : Cpu → w.Value → Option w.Value × (Cpu → Cpu × Signal))
  /-- A far pointer, of which `use` gets the segment and the offset. -/
  | pointer (offset : Registers → Word) (use : Cpu → Word → Word → Cpu × Signal)
  /-- Elements at `SI`, dealt with one by one while `goesOn` allows, `count` of them at most. -/
  | elements (w : Width) (count : Cpu → Nat) (goesOn : Cpu → Bool) (use : Cpu → w.Value → Cpu)
      (keeps : ∀ c v t, (use c v).registers.segment t = c.registers.segment t)

namespace DataUse

/-- Where the operand begins. -/
def offset : DataUse → Registers → Word
  | operand _ offset _ => offset
  | pointer offset _ => offset
  | elements _ _ _ _ _ => Registers.si

/-- The elements that are left, with their source in a segment. -/
def runElements (s : Segment) {w : Width} (goesOn : Cpu → Bool) (use : Cpu → w.Value → Cpu) :
    (count : Nat) → Cpu → Cpu
  | 0, c => c
  | count + 1, c =>
    let d := use c (c.load w s c.registers.si)
    if goesOn d then runElements s goesOn use count d else d

/-- Execution with the operand in a segment. -/
def run (u : DataUse) (s : Segment) (c : Cpu) : Cpu × Signal :=
  match u with
  | operand w offset use =>
    let place := offset c.registers
    let (stored, finish) := use c (c.load w s place)
    match stored with
    | some v => finish (c.store w s place v)
    | none => finish c
  | pointer offset use =>
    let place := offset c.registers
    use c (c.readWord s (place + 2)) (c.readWord s place)
  | elements _ count goesOn use _ => (runElements s goesOn use (count c) c, .next)

/-- The operand is only read. -/
def reads (w : Width) (offset : Registers → Word) (use : Cpu → w.Value → Cpu × Signal) : DataUse :=
  operand w offset fun c v => (none, fun _ => use c v)

/-- The operand is only written. -/
def writes (w : Width) (offset : Registers → Word) (value : Cpu → w.Value) : DataUse :=
  operand w offset fun c _ => (some (value c), fun d => (d, .next))

/-- The operand is replaced together with the flags. -/
def updates (w : Width) (offset : Registers → Word) (result : Cpu → w.Value → w.Value × Flags) :
    DataUse :=
  operand w offset fun c v =>
    (some (result c v).1, fun d => ({ d with flags := (result c v).2 }, .next))

/-- A two-operand operation with its target in memory. -/
def alu (w : Width) (op : AluOp) (offset : Registers → Word) (source : Cpu → w.Value) : DataUse :=
  operand w offset fun c v =>
    let result := op.apply c.flags v (source c)
    (if op.isComparison then none else some result.1,
      fun d => ({ d with flags := result.2 }, .next))

/-- A shift of an operand in memory. -/
def shift (w : Width) (op : ShiftOp) (offset : Registers → Word) (count : ShiftCount) : DataUse :=
  operand w offset fun c v =>
    let result := op.apply c.flags v (count.positions c)
    if count.positions c = 0 then (none, fun d => (d, .next))
    else (some result.1, fun d => ({ d with flags := result.2 }, .next))

end DataUse

/-! ## Elements of a source -/

/-- What an operation does with an element of its source. The others have none. -/
def Cpu.useElement (c : Cpu) (w : Width) (op : StringOp) (v : w.Value) : Cpu :=
  match op with
  | .movs => ((c.store w .es c.registers.di v).advanceSource w).advanceTarget w
  | .cmps => ((c.compare v (c.load w .es c.registers.di)).advanceSource w).advanceTarget w
  | .lods => (c.writeOperand w v (.register .accumulator)).advanceSource w
  | .stos | .scas => c

/-- What an operation does with an element that CX counts. -/
def Cpu.useCountedElement (c : Cpu) (w : Width) (op : StringOp) (v : w.Value) : Cpu :=
  let d := c.useElement w op v
  d.setRegister .cx (d.registers.cx - 1)

theorem Cpu.segment_useElement (w : Width) (op : StringOp) (c : Cpu) (v : w.Value) (t : Segment) :
    (c.useElement w op v).registers.segment t = c.registers.segment t := by
  cases op <;> cases w <;> cases t <;> rfl

theorem Cpu.segment_useCountedElement (w : Width) (op : StringOp) (c : Cpu) (v : w.Value)
    (t : Segment) : (c.useCountedElement w op v).registers.segment t = c.registers.segment t := by
  cases op <;> cases w <;> cases t <;> rfl

/-- A string operation with a source, repeated or not. -/
def DataUse.string (w : Width) (op : StringOp) : Option Repetition → DataUse
  | none =>
    .elements w (fun _ => 1) (fun _ => false) (fun c v => c.useElement w op v)
      (Cpu.segment_useElement w op)
  | some r =>
    .elements w (fun c => c.registers.cx.toNat)
      (fun d => !(op.compares && !r.continues d.flags.zero)) (fun c v => c.useCountedElement w op v)
      (Cpu.segment_useCountedElement w op)

/-! ## All instructions -/

/-- The segment of the data operand and the use that is made of it. There is none if all operands
are registers or immediate values, if only the address of the operand is taken, or if the
instruction reaches nothing but the stack or the destination of a string. -/
def Instruction.dataUse? : Instruction → Option (Segment × DataUse)
  | .alu w op (.register n) (.place (.memory ⟨s, b, d⟩)) =>
    some (s, .reads w (b.value · + d) fun c v => (c.alu w op (.register n) (.immediate v), .next))
  | .alu w op (.memory ⟨s, b, d⟩) (.place (.register n)) =>
    some (s, .alu w op (b.value · + d) (·.registers.read w n))
  | .alu w op (.memory ⟨s, b, d⟩) (.immediate x) => some (s, .alu w op (b.value · + d) fun _ => x)
  | .test w (.memory ⟨s, b, d⟩) (.place (.register n)) =>
    some (s, .reads w (b.value · + d) fun c v =>
      ({ c with flags := c.flags.withLogical (v &&& c.registers.read w n) }, .next))
  | .test w (.memory ⟨s, b, d⟩) (.immediate x) =>
    some (s, .reads w (b.value · + d) fun c v =>
      ({ c with flags := c.flags.withLogical (v &&& x) }, .next))
  | .inc w (.memory ⟨s, b, d⟩) =>
    some (s, .updates w (b.value · + d) fun c v => increment c.flags v)
  | .dec w (.memory ⟨s, b, d⟩) =>
    some (s, .updates w (b.value · + d) fun c v => decrement c.flags v)
  | .neg w (.memory ⟨s, b, d⟩) => some (s, .updates w (b.value · + d) fun c v => negate c.flags v)
  | .not w (.memory ⟨s, b, d⟩) =>
    some (s, .operand w (b.value · + d) fun _ v => (some (~~~v), fun e => (e, .next)))
  | .mul w (.memory ⟨s, b, d⟩) =>
    some (s, .reads w (b.value · + d) fun c v =>
      let p := unsignedProduct (c.accumulator w) v
      ({ c with flags := c.flags.withWide (unsignedWide p) }.setWide w p, .next))
  | .imul w (.memory ⟨s, b, d⟩) negated =>
    some (s, .reads w (b.value · + d) fun c v =>
      let p := signedProduct (c.accumulator w) v negated
      ({ c with flags := c.flags.withWide (signedWide p) }.setWide w p, .next))
  | .div w (.memory ⟨s, b, d⟩) =>
    some (s, .reads w (b.value · + d) fun c v => c.divided w (unsignedDivide? (c.wide w) v))
  | .idiv w (.memory ⟨s, b, d⟩) negated =>
    some (s, .reads w (b.value · + d) fun c v =>
      c.divided w (signedDivide? (c.wide w) v negated))
  | .shift w op (.memory ⟨s, b, d⟩) count => some (s, .shift w op (b.value · + d) count)
  | .mov w (.register n) (.place (.memory ⟨s, b, d⟩)) =>
    some (s, .reads w (b.value · + d) fun c v => (c.write w (.register n) v, .next))
  | .mov w (.memory ⟨s, b, d⟩) (.place (.register n)) =>
    some (s, .writes w (b.value · + d) (·.registers.read w n))
  | .mov w (.memory ⟨s, b, d⟩) (.immediate x) => some (s, .writes w (b.value · + d) fun _ => x)
  | .movFromSegment (.memory ⟨s, b, d⟩) t =>
    some (s, .writes .word (b.value · + d) (·.registers.segment t))
  | .movToSegment t (.memory ⟨s, b, d⟩) =>
    some (s, .reads .word (b.value · + d) fun c v => (c.setRegister t.register v, .next))
  | .xchg w (.memory ⟨s, b, d⟩) (.register n) =>
    some (s, .operand w (b.value · + d) fun c v =>
      (some (c.registers.read w n), fun e => (e.writeOperand w v (.register n), .next)))
  | .loadPointer t n ⟨s, b, d⟩ =>
    some (s, .pointer (b.value · + d) fun c segment offset =>
      ((c.setRegister n.register offset).setRegister t.register segment, .next))
  | .xlat s =>
    some (s, .reads .byte (fun r => r.bx + (r.low .ax).setWidth 16) fun c v =>
      (c.setLow .ax v, .next))
  | .push (.memory ⟨s, b, d⟩) =>
    some (s, .reads .word (b.value · + d) fun c v => (c.push v, .next))
  | .pop (.memory ⟨s, b, d⟩) =>
    some (s, .operand .word (b.value · + d) fun c _ =>
      (some c.pop.1, fun e => (e.pop.2, .next)))
  | .jumpTo (.memory ⟨s, b, d⟩) =>
    some (s, .reads .word (b.value · + d) fun c v => (c.jump v, .next))
  | .jumpToPointer ⟨s, b, d⟩ =>
    some (s, .pointer (b.value · + d) fun c cs ip => (c.jumpFar cs ip, .next))
  | .callTo (.memory ⟨s, b, d⟩) =>
    some (s, .reads .word (b.value · + d) fun c v => (c.call v, .next))
  | .callToPointer ⟨s, b, d⟩ =>
    some (s, .pointer (b.value · + d) fun c cs ip => (c.callFar cs ip, .next))
  | .string w op s repetition => if op.loads then some (s, .string w op repetition) else none
  | _ => none

namespace Cpu

variable (c : Cpu) {s : Segment} {w : Width}

/-- The flags have nothing to do with memory. -/
theorem store_withFlags (f : Flags) (offset : Word) (v : w.Value) :
    { c with flags := f }.store w s offset v = { c.store w s offset v with flags := f } := by
  cases w <;> rfl

theorem alu_memory (op : AluOp) (b : AddressBase) (d : Word) (source : Source w)
    (value : Cpu → w.Value) (same : c.readSource w source = value c) :
    (c.alu w op (.memory ⟨s, b, d⟩) source, Signal.next) =
      (DataUse.alu w op (b.value · + d) value).run s c := by
  rw [Cpu.alu, same]
  cases comparison : op.isComparison with
  | true =>
      simp only [DataUse.alu, DataUse.run, comparison]
      rfl
  | false =>
      simp only [DataUse.alu, DataUse.run, comparison]
      exact congrArg (·, Signal.next) (store_withFlags c _ _ _)

theorem shift_memory (op : ShiftOp) (b : AddressBase) (d : Word) (count : ShiftCount) :
    (c.shift w op (.memory ⟨s, b, d⟩) count, Signal.next) =
      (DataUse.shift w op (b.value · + d) count).run s c := by
  rw [shift_eq]
  by_cases none : count.positions c = 0
  · simp only [DataUse.shift, DataUse.run, none, if_true]
  · simp only [DataUse.shift, DataUse.run, none, if_false]
    exact congrArg (·, Signal.next) (store_withFlags c _ _ _)

/-- One element, whose source is known by its value. -/
theorem stringElement_of_loads {op : StringOp} (loads : op.loads = true) :
    c.stringElement w op s = c.useElement w op (c.load w s c.registers.si) := by
  cases op with
  | movs | cmps | lods => rfl
  | stos | scas => cases loads

theorem stringElements_of_loads {op : StringOp} (loads : op.loads = true) (r : Repetition)
    (count : Nat) :
    stringElements w op s r count c =
      DataUse.runElements s (fun d => !(op.compares && !r.continues d.flags.zero))
        (fun c v => c.useCountedElement w op v) count c := by
  induction count generalizing c with
  | zero => rfl
  | succ count ih =>
      rw [stringElements_succ, stringElement_of_loads c loads]
      let d := c.useCountedElement w op (c.load w s c.registers.si)
      change (if (op.compares && !r.continues d.flags.zero) = true then d
        else stringElements w op s r count d) = _
      rw [ih, DataUse.runElements]
      cases op.compares && !r.continues d.flags.zero <;> rfl

/-- The table describes execution. -/
theorem execute_eq_run {i : Instruction} {u : DataUse} (found : i.dataUse? = some (s, u)) :
    c.execute i = u.run s c := by
  revert found
  fun_cases Instruction.dataUse? i <;> intro found <;> cases found
  case case2 w op b d n => exact c.alu_memory op b d _ _ rfl
  case case3 w op b d x => exact c.alu_memory op b d _ _ rfl
  case case6 w b d | case7 w b d | case8 w b d =>
      exact congrArg (·, Signal.next) (c.store_withFlags _ _ _)
  case case14 w op b d count => exact c.shift_memory op b d count
  case case24 b d => cases s <;> rfl
  case case29 w op repetition loads =>
      cases repetition with
      | none => exact congrArg (·, Signal.next) (c.stringElement_of_loads loads)
      | some r => exact congrArg (·, Signal.next) (c.stringElements_of_loads loads r _)
  all_goals rfl

/-! ## Segments that coincide -/

theorem load_congr_segment {t : Segment}
    (same : c.registers.segment s = c.registers.segment t) (offset : Word) :
    c.load w s offset = c.load w t offset := by
  have byte (offset : Word) : c.readByte s offset = c.readByte t offset := by
    rw [readByte, readByte, address, address, same]
  cases w with
  | byte => exact byte offset
  | word =>
      change Word.ofBytes (c.readByte s offset) (c.readByte s (offset + 1)) = _
      rw [byte, byte]
      rfl

theorem store_congr_segment {t : Segment}
    (same : c.registers.segment s = c.registers.segment t) (offset : Word) (v : w.Value) :
    c.store w s offset v = c.store w t offset v := by
  have byte (c : Cpu) (same : c.registers.segment s = c.registers.segment t) (offset : Word)
      (v : Byte) : c.writeByte s offset v = c.writeByte t offset v := by
    rw [writeByte, writeByte, address, address, same]
  -- The second byte of a word is written behind the first, with the same segment registers.
  cases w with
  | byte => exact byte c same offset v
  | word =>
      change (c.writeByte s offset _).writeByte s _ _ = (c.writeByte t offset _).writeByte t _ _
      rw [byte c same, byte (c.writeByte t offset _) same]

end Cpu

namespace DataUse

variable {c : Cpu} {s t : Segment}

theorem runElements_congr {w : Width} {goesOn : Cpu → Bool} {use : Cpu → w.Value → Cpu}
    (keeps : ∀ c v t, (use c v).registers.segment t = c.registers.segment t)
    (same : c.registers.segment s = c.registers.segment t) (count : Nat) :
    runElements s goesOn use count c = runElements t goesOn use count c := by
  induction count generalizing c with
  | zero => rfl
  | succ count ih =>
      have rest := ih (c := use c (c.load w t c.registers.si)) (by rw [keeps, keeps, same])
      simp only [runElements, c.load_congr_segment same, rest]

/-- Of the segment only its base has a part in execution. -/
theorem run_congr (u : DataUse) (same : c.registers.segment s = c.registers.segment t) :
    u.run s c = u.run t c := by
  cases u with
  | operand w offset use =>
      simp only [run, c.load_congr_segment same, c.store_congr_segment same]
  | pointer offset use =>
      have word (offset : Word) : c.readWord s offset = c.readWord t offset :=
        c.load_congr_segment (w := .word) same offset
      simp only [run, word]
  | elements w count goesOn use keeps =>
      simp only [run, runElements_congr keeps same]

end DataUse

end I8086
