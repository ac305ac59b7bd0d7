import Mathlib
import I8086.Proofs.FlagWord
import I8086.Proofs.Nesting
import I8086.Proofs.PrefixRun
import I8086.Proofs.Synonyms

/-!
# Last in, first out

`Cpu.Stacked` says that words lie on the stack, one next below the other, and that nothing lies on
top of them. Pushing adds a word to that list and popping takes the last one, wherever the list
begins in its segment and however it wraps. `Machine.PushedSoFar` and `Machine.PoppedSoFar` are the
invariants of programs that push, by whichever instructions, and then pop; what has been pushed
keeps off the program, so all of it is executed as it was written down first.
-/

namespace I8086

namespace Cpu

/-! ## The stack as a list of words -/

/-- The words lie on the stack, the first one next below an offset and every one below the one
before it, and nothing lies on top of them. -/
structure Stacked (c : Cpu) (base : Word) (words : List Word) : Prop where
  sp : c.registers.sp = base - BitVec.ofNat 16 (2 * words.length)
  low : ∀ i (h : i < words.length),
    c.memory.get (c.address .ss (base - BitVec.ofNat 16 (2 * (i + 1)))) = words[i].low
  high : ∀ i (h : i < words.length),
    c.memory.get (c.address .ss (base - BitVec.ofNat 16 (2 * (i + 1)) + 1)) = words[i].high

variable {c c' : Cpu} {base v : Word} {words : List Word}

theorem Stacked.readWord (stacked : c.Stacked base words) {i : Nat} (h : i < words.length) :
    c.readWord .ss (base - BitVec.ofNat 16 (2 * (i + 1))) = words[i] := by
  rw [Cpu.readWord, readByte, readByte, stacked.low i h, stacked.high i h, Word.ofBytes_low_high]

/-- What has been pushed onto a stack with room for it lies there. -/
theorem stacked_pushAll (c : Cpu) {words : List Word} (room : words.length ≤ 0x8000) :
    (c.pushAll words).Stacked c.registers.sp words where
  sp := by rw [registers_pushAll]
  low i h := by
    have word := readWord_pushAll (c := c) h (by omega)
    rw [← word, Cpu.readWord, Word.low_ofBytes]
    rfl
  high i h := by
    have word := readWord_pushAll (c := c) h (by omega)
    rw [← word, Cpu.readWord, Word.high_ofBytes]
    rfl

/-- The stack does not depend on other registers. -/
theorem Stacked.congr (stacked : c.Stacked base words)
    (sp : c'.registers.sp = c.registers.sp) (ss : c'.registers.ss = c.registers.ss)
    (memory : c'.memory = c.memory) : c'.Stacked base words := by
  have address (x : Word) : c'.address .ss x = c.address .ss x :=
    congrArg (Address.translate · x) ss
  refine ⟨sp.trans stacked.sp, fun i h => ?_, fun i h => ?_⟩
  · rw [memory, address, stacked.low i h]
  · rw [memory, address, stacked.high i h]

/-- The last word is popped, and the others stay. -/
theorem Stacked.pop (stacked : c.Stacked base (words ++ [v])) :
    c.pop.1 = v ∧ c.pop.2.Stacked base words := by
  have length : (words ++ [v]).length = words.length + 1 := List.length_append
  have sp := stacked.sp
  rw [length] at sp
  have inside : words.length < (words ++ [v]).length := by omega
  refine ⟨?_, ?_, fun i h => ?_, fun i h => ?_⟩
  · show c.readWord .ss c.registers.sp = v
    rw [sp, stacked.readWord inside, List.getElem_concat_length rfl]
  · show c.registers.sp + 2 = _
    rw [sp, Nat.mul_succ, BitVec.ofNat_add]
    bv_omega
  · have kept := stacked.low i (Nat.lt_trans h inside)
    rwa [List.getElem_append_left h] at kept
  · have kept := stacked.high i (Nat.lt_trans h inside)
    rwa [List.getElem_append_left h] at kept

/-- Pops so many words. -/
def popAll (c : Cpu) : Nat → List Word × Cpu
  | 0 => ([], c)
  | n + 1 =>
    let (v, c) := c.pop
    let (vs, c) := c.popAll n
    (v :: vs, c)

/-- What lies on the stack is popped in reverse order, and nothing but SP changes. -/
theorem Stacked.popAll (stacked : c.Stacked base words) :
    c.popAll words.length = (words.reverse, c.setRegister .sp base) := by
  induction words using List.reverseRecOn generalizing c with
  | nil =>
      have top : c.registers.sp = base := stacked.sp.trans (BitVec.sub_zero _)
      rw [← top]
      rfl
  | append_singleton words v ih =>
      obtain ⟨last, others⟩ := stacked.pop
      rw [List.length_append, List.length_singleton]
      show (c.pop.1 :: (c.pop.2.popAll words.length).1, (c.pop.2.popAll words.length).2) = _
      rw [ih others, last, List.reverse_append]
      rfl

end Cpu

/-! ## Instructions that push and pop -/

namespace Encoding

/-- What is pushed: a register, an operand, a segment register or the flags. -/
inductive PushSource where
  | register (n : RegisterNumber)
  | operand (m : Byte) (displacement : List Byte) (isOperand : IsOperand m displacement)
    (field : regField m = 6)
  | segment (s : Segment)
  | flags

/-- What is popped into: a register or a segment register, but not one of the stack or of the
code. -/
inductive PopTarget where
  | register (n : RegisterNumber) (notStack : n ≠ .stackPointer)
  | registerOperand (n : RegisterNumber) (notStack : n ≠ .stackPointer)
  | es
  | ds

/-- An instruction that uses the stack, behind prefixes. -/
structure Prefixed (Kind : Type) where
  prefixes : List Byte
  isPrefix : ∀ b ∈ prefixes, b.IsPrefix
  short : prefixes.length < maxPrefixRun
  kind : Kind

/-- The bytes of the instruction, its prefixes included. -/
def Prefixed.code {Kind : Type} (bytes : Kind → List Byte) (x : Prefixed Kind) : List Byte :=
  x.prefixes ++ bytes x.kind

/-- The bytes of instructions that follow each other. -/
def Prefixed.program {Kind : Type} (bytes : Kind → List Byte) (xs : List (Prefixed Kind)) :
    List Byte := xs.flatMap (code bytes)

namespace PushSource

/-- The encoding of the instruction. -/
def bytes : PushSource → List Byte
  | register n => [numbered 0x50 n]
  | operand m displacement _ _ => 0xFF :: m :: displacement
  | segment .es => [0x06]
  | segment .cs => [0x0E]
  | segment .ss => [0x16]
  | segment .ds => [0x1E]
  | flags => [0x9C]

/-- The instruction that is encoded. -/
def instruction (p : Prefixes) : PushSource → Instruction
  | register n => .push (.register n)
  | operand m displacement _ _ => .push (operandPlace p m displacement)
  | segment s => .pushSegment s
  | flags => .pushf

/-- The word that is pushed. SP is pushed as it is after the push. -/
def word (p : Prefixes) (c : Cpu) : PushSource → Word
  | register n => pushedRegister c n
  | operand m displacement _ _ =>
    match operandPlace p m displacement with
    | .register n => pushedRegister c n
    | .memory a => c.readWord a.segment (a.offset c.registers)
  | segment s => c.registers.segment s
  | flags => c.flags.pushed
where
  /-- The word that is pushed from a register. -/
  pushedRegister (c : Cpu) (n : RegisterNumber) : Word :=
    if n = .stackPointer then c.registers.sp - 2 else c.registers.word n

theorem decode? (x : PushSource) (p : Prefixes) :
    (Code.ofList x.bytes).decode? p = some (x.instruction p, x.bytes.length) := by
  cases x with
  | register n =>
      have opcode : ∀ n, Opcode.ofByte? (numbered 0x50 n) = some (.pushRegister n) := by decide
      exact Code.decode?_ofList (.pushRegister n) (opcode n) rfl
  | operand m displacement isOperand field =>
      rw [regField_eq] at field
      have number : (ModRM.ofByte m).reg = 6 := Fin.ext field
      refine decode?_of_operand .indirectGroup rfl rfl isOperand ?_
      rw [number]
      rfl
  | segment s => cases s <;> exact Code.decode?_ofList (.pushSegment _) rfl rfl
  | flags => exact Code.decode?_ofList .pushf rfl rfl

theorem execute (x : PushSource) (p : Prefixes) (c : Cpu) :
    c.execute (x.instruction p) = (c.push (x.word p c), .next) := by
  have register (n : RegisterNumber) :
      c.execute (.push (.register n)) = (c.push (word.pushedRegister c n), .next) := by
    unfold Cpu.execute Cpu.pushPlace word.pushedRegister
    simp only [Place.register.injEq]
    split <;> rfl
  cases x with
  | register n => exact register n
  | operand m displacement isOperand field =>
      rw [instruction, word]
      cases operandPlace p m displacement with
      | register n => exact register n
      | memory a => rfl
  | segment s => rfl
  | flags => rfl

theorem sequential (x : PushSource) (p : Prefixes) : (x.instruction p).Sequential := by
  refine ⟨?_, fun c => ?_, fun c => ?_⟩
  · cases x <;> rfl
  · rw [x.execute]
  · cases x <;> rfl

end PushSource

namespace PopTarget

/-- The encoding of the instruction. -/
def bytes : PopTarget → List Byte
  | register n _ => [numbered 0x58 n]
  | registerOperand n _ => [0x8F, numbered 0xC0 n]
  | es => [0x07]
  | ds => [0x1F]

/-- The instruction that is encoded. -/
def instruction : PopTarget → Instruction
  | register n _ | registerOperand n _ => .pop (.register n)
  | es => .popSegment .es
  | ds => .popSegment .ds

/-- The register that takes the word. -/
def target : PopTarget → Register
  | register n _ | registerOperand n _ => n.register
  | es => .es
  | ds => .ds

theorem decode? (x : PopTarget) (p : Prefixes) :
    (Code.ofList x.bytes).decode? p = some (x.instruction, x.bytes.length) := by
  cases x with
  | register n _ =>
      have opcode : ∀ n, Opcode.ofByte? (numbered 0x58 n) = some (.popRegister n) := by decide
      exact Code.decode?_ofList (.popRegister n) (opcode n) rfl
  | registerOperand n _ =>
      have pair : ∀ n, numbered 0xC0 n = registerPair 0 n := by decide
      rw [bytes, pair]
      exact decode?_registerPair .popGroup rfl rfl rfl
  | es => exact Code.decode?_ofList (.popSegment .es) rfl rfl
  | ds => exact Code.decode?_ofList (.popSegment .ds) rfl rfl

theorem execute (x : PopTarget) (c : Cpu) :
    c.execute x.instruction = (c.pop.2.setRegister x.target c.pop.1, .next) := by
  cases x <;> rfl

theorem sequential (x : PopTarget) : x.instruction.Sequential := by
  refine ⟨?_, fun c => ?_, fun c => ?_⟩
  · cases x <;> rfl
  · rw [x.execute]
  · cases x <;> rfl

/-- The registers of the stack and of the code are no targets. -/
theorem target_ne (x : PopTarget) :
    x.target ≠ .sp ∧ x.target ≠ .ss ∧ x.target ≠ .cs ∧ x.target ≠ .ip := by
  have register : ∀ n : RegisterNumber, n ≠ .stackPointer → n.register ≠ .sp ∧
      n.register ≠ .ss ∧ n.register ≠ .cs ∧ n.register ≠ .ip := by
    decide
  cases x with
  | register n notStack | registerOperand n notStack => exact register n notStack
  | es | ds => decide

end PopTarget

end Encoding

namespace Cpu

theorem pushAll_append (c : Cpu) (front back : List Word) :
    c.pushAll (front ++ back) = (c.pushAll front).pushAll back := List.foldl_append

end Cpu

namespace Machine

open Encoding

variable {World : Type} {m : Machine World}

/-! ## Steps that push and pop -/

theorem stepped_add (m : Machine World) (i j : Nat) :
    m.stepped (i + j) = (m.stepped i).stepped j := by
  induction j with
  | zero => rfl
  | succ j ih => exact congrArg (·.step.2) ih

/-- The step of an instruction that leads to the next one. -/
theorem step_of_sequential {Kind : Type} {bytes : Kind → List Byte} {i : Instruction}
    (x : Prefixed Kind) (running : m.cpu.halted = false) (holds : m.code.Holds (x.code bytes))
    (decoded : (Code.ofList (bytes x.kind)).decode? ((m.pending.getD {}).extend x.prefixes) =
      some (i, (bytes x.kind).length)) (sequential : i.Sequential) :
    m.step = (.ok .next, { m with
      cpu := (m.cpu.execute i).1.relocate
        (m.cpu.registers.ip + BitVec.ofNat 16 (x.code bytes).length) m.instructionStart
      pending := none
      count := m.count + 1 }) := by
  have fetched := fetched_of_decode? holds x.isPrefix x.short decoded
  rw [step_of_next running fetched sequential.notCall (sequential.signal _), sequential.flow,
    Prefixed.code, List.length_append]
  rfl

/-- The word that an instruction pushes in a state of the machine. -/
def pushedWord (m : Machine World) (x : Prefixed PushSource) : Word :=
  x.kind.word ((m.pending.getD {}).extend x.prefixes) m.cpu

theorem step_of_push (x : Prefixed PushSource) (running : m.cpu.halted = false)
    (holds : m.code.Holds (x.code PushSource.bytes)) :
    m.step = (.ok .next, { m with
      cpu := (m.cpu.push (m.pushedWord x)).relocate
        (m.cpu.registers.ip + BitVec.ofNat 16 (x.code PushSource.bytes).length) m.instructionStart
      pending := none
      count := m.count + 1 }) := by
  rw [step_of_sequential x running holds (x.kind.decode? _) (x.kind.sequential _), x.kind.execute]
  rfl

theorem step_of_pop (x : Prefixed PopTarget) (running : m.cpu.halted = false)
    (holds : m.code.Holds (x.code PopTarget.bytes)) :
    m.step = (.ok .next, { m with
      cpu := (m.cpu.pop.2.setRegister x.kind.target m.cpu.pop.1).relocate
        (m.cpu.registers.ip + BitVec.ofNat 16 (x.code PopTarget.bytes).length) m.instructionStart
      pending := none
      count := m.count + 1 }) := by
  rw [step_of_sequential x running holds (x.kind.decode? _) x.kind.sequential, x.kind.execute]

/-- A pop changes its target, SP and IP. -/
theorem get_step_of_pop (x : Prefixed PopTarget) (running : m.cpu.halted = false)
    (holds : m.code.Holds (x.code PopTarget.bytes)) {r : Register} (plain : r ≠ .ip) :
    m.step.2.cpu.registers.get r =
      (m.cpu.pop.2.registers.set x.kind.target m.cpu.pop.1).get r := by
  rw [step_of_pop x running holds]
  exact Registers.get_relocate _ _ _ plain

theorem memory_step_of_pop (x : Prefixed PopTarget) (running : m.cpu.halted = false)
    (holds : m.code.Holds (x.code PopTarget.bytes)) :
    m.step.2.cpu.memory = m.cpu.memory := by
  rw [step_of_pop x running holds]
  rfl

/-- A pop leaves the stack without its last word. -/
theorem stacked_step_of_pop (x : Prefixed PopTarget) (running : m.cpu.halted = false)
    (holds : m.code.Holds (x.code PopTarget.bytes)) {base : Word} {words : List Word}
    (others : m.cpu.pop.2.Stacked base words) : m.step.2.cpu.Stacked base words := by
  obtain ⟨notSp, notSs, -, -⟩ := x.kind.target_ne
  have sp := get_step_of_pop x running holds (r := .sp) (by decide)
  rw [Registers.get_set_ne _ _ notSp.symm] at sp
  have ss := get_step_of_pop x running holds (r := .ss) (by decide)
  rw [Registers.get_set_ne _ _ notSs.symm] at ss
  exact others.congr sp ss (memory_step_of_pop x running holds)

/-- A pop leaves what stands behind it to be executed next. -/
theorem holds_step_of_pop (x : Prefixed PopTarget) (running : m.cpu.halted = false)
    {rest : List Byte} (holds : m.code.Holds (x.code PopTarget.bytes ++ rest)) :
    m.step.2.code.Holds rest := by
  have step := step_of_pop x running holds.left
  obtain ⟨-, -, notCs, -⟩ := x.kind.target_ne
  have cs := get_step_of_pop x running holds.left (r := .cs) (by decide)
  rw [Registers.get_set_ne _ _ notCs.symm] at cs
  have ip : m.step.2.cpu.registers.ip =
      m.cpu.registers.ip + BitVec.ofNat 16 (x.code PopTarget.bytes).length := by
    rw [step]
    rfl
  have memory := memory_step_of_pop x running holds.left
  have noUnderTop (a : Address) : ¬m.cpu.UnderTop 0 a := by
    rintro ⟨i, pos, none, -⟩
    omega
  have there := holds_of_kept holds cs ip (fun a _ => congrArg (Memory.get · a) memory)
    fun j _ => noUnderTop _
  rwa [List.drop_left] at there

/-! ## Runs that push -/

/-- The words that instructions push one after the other, each in the state that it finds. -/
def pushedWords (m : Machine World) (xs : List (Prefixed PushSource)) : List Word :=
  xs.mapIdx fun i x => (m.stepped i).pushedWord x

/-- The machine when so many of the instructions are done. -/
def PushedSoFar (m : Machine World) (xs : List (Prefixed PushSource)) (k : Nat) : Prop :=
  ∃ opIp pending, m.stepped k = { m with
    cpu := (m.cpu.pushAll ((m.pushedWords xs).take k)).relocate
      (m.cpu.registers.ip + BitVec.ofNat 16 (Prefixed.program PushSource.bytes (xs.take k)).length)
      opIp
    pending
    count := m.count + k }

section

variable {xs : List (Prefixed PushSource)} {rest : List Byte} {k : Nat}

/-- The rest of the program is still there, if the stack keeps off it. -/
theorem PushedSoFar.holds (h : m.PushedSoFar xs k) (le : k ≤ xs.length)
    (holds : m.code.Holds (Prefixed.program PushSource.bytes xs ++ rest))
    (apart : ∀ j < (Prefixed.program PushSource.bytes xs ++ rest).length,
      ¬m.cpu.UnderTop (2 * xs.length)
        (m.cpu.address .cs (m.cpu.registers.ip + BitVec.ofNat 16 j))) :
    (m.stepped k).code.Holds (Prefixed.program PushSource.bytes (xs.drop k) ++ rest) := by
  obtain ⟨opIp, pending, state⟩ := h
  have parts : Prefixed.program PushSource.bytes xs ++ rest =
      Prefixed.program PushSource.bytes (xs.take k) ++
        (Prefixed.program PushSource.bytes (xs.drop k) ++ rest) := by
    rw [← List.append_assoc, Prefixed.program, Prefixed.program, Prefixed.program,
      ← List.flatMap_append, List.take_append_drop]
  have length : (m.pushedWords xs).length = xs.length := List.length_mapIdx
  have cs : (m.stepped k).cpu.registers.cs = m.cpu.registers.cs := by
    rw [state, Cpu.registers_relocate, Cpu.registers_pushAll]
    rfl
  have ip : (m.stepped k).cpu.registers.ip = m.cpu.registers.ip +
      BitVec.ofNat 16 (Prefixed.program PushSource.bytes (xs.take k)).length := by
    rw [state]
    rfl
  have kept (a : Address) (outside : ¬m.cpu.UnderTop (2 * xs.length) a) :
      (m.stepped k).cpu.memory.get a = m.cpu.memory.get a := by
    rw [state]
    refine Cpu.get_pushAll fun under => outside (under.mono ?_)
    rw [List.length_take, length]
    omega
  have there := holds_of_kept holds cs ip kept apart
  rwa [parts, List.drop_left] at there

/-- One more push. -/
theorem PushedSoFar.succ (h : m.PushedSoFar xs k) (lt : k < xs.length)
    (running : m.cpu.halted = false)
    (holds : (m.stepped k).code.Holds (Prefixed.program PushSource.bytes (xs.drop k) ++ rest)) :
    (m.stepped k).step.1 = .ok .next ∧ m.PushedSoFar xs (k + 1) := by
  obtain ⟨opIp, pending, state⟩ := h
  have first : (m.stepped k).code.Holds (xs[k].code PushSource.bytes) := by
    rw [List.drop_eq_getElem_cons lt, Prefixed.program, List.flatMap_cons, List.append_assoc]
      at holds
    exact holds.left
  have length : (m.pushedWords xs).length = xs.length := List.length_mapIdx
  have inside : k < (m.pushedWords xs).length := length ▸ lt
  have word : (m.stepped k).pushedWord xs[k] = (m.pushedWords xs)[k] := by
    simp only [pushedWords, List.getElem_mapIdx]
  have still : (m.stepped k).cpu.halted = false := by
    rw [state, Cpu.halted_relocate, Cpu.halted_pushAll, running]
  have step := step_of_push xs[k] still first
  refine ⟨congrArg Prod.fst step, (m.stepped k).instructionStart, none, ?_⟩
  have cpu : (m.stepped k).cpu.push ((m.stepped k).pushedWord xs[k]) =
      (m.cpu.pushAll ((m.pushedWords xs).take (k + 1))).relocate
        (m.stepped k).cpu.registers.ip opIp := by
    rw [word, List.take_succ_eq_append_getElem inside, Cpu.pushAll_append, state, Cpu.push_relocate]
    rfl
  have ip : (m.stepped k).cpu.registers.ip + BitVec.ofNat 16 (xs[k].code PushSource.bytes).length =
      m.cpu.registers.ip +
        BitVec.ofNat 16 (Prefixed.program PushSource.bytes (xs.take (k + 1))).length := by
    rw [List.take_succ_eq_append_getElem lt, Prefixed.program, List.flatMap_append,
      List.length_append, BitVec.ofNat_add, ← BitVec.add_assoc, List.flatMap_singleton, state]
    rfl
  show (m.stepped k).step.2 = _
  rw [step, cpu, ip, Cpu.relocate_relocate]
  generalize (m.stepped k).instructionStart = start
  rw [state]
  rfl

/-- The machine when all of them are done. -/
theorem pushedSoFar (running : m.cpu.halted = false)
    (holds : m.code.Holds (Prefixed.program PushSource.bytes xs ++ rest))
    (apart : ∀ j < (Prefixed.program PushSource.bytes xs ++ rest).length,
      ¬m.cpu.UnderTop (2 * xs.length)
        (m.cpu.address .cs (m.cpu.registers.ip + BitVec.ofNat 16 j))) (le : k ≤ xs.length) :
    m.PushedSoFar xs k ∧ ∀ i < k, (m.stepped i).step.1 = .ok .next := by
  induction k with
  | zero =>
      refine ⟨⟨m.cpu.registers.opIp, m.pending, ?_⟩, nofun⟩
      have start : m.cpu.registers.ip + BitVec.ofNat 16 0 = m.cpu.registers.ip :=
        BitVec.add_zero _
      rw [List.take_zero, List.take_zero, Prefixed.program, List.flatMap_nil, List.length_nil,
        start, Cpu.pushAll_nil, Cpu.relocate_self]
      rfl
  | succ k ih =>
      obtain ⟨before, results⟩ := ih (Nat.le_of_succ_le le)
      have there := before.holds (Nat.le_of_succ_le le) holds apart
      obtain ⟨result, after⟩ := before.succ le running there
      refine ⟨after, fun i hi => ?_⟩
      rcases Nat.lt_succ_iff_lt_or_eq.mp hi with earlier | rfl
      · exact results i earlier
      · exact result

end

/-! ## Runs that pop -/

/-- The machine when so many of the instructions are done that pop what lies on the stack. -/
structure PoppedSoFar (m : Machine World) (base : Word) (words : List Word)
    (ys : List (Prefixed PopTarget)) (k : Nat) : Prop where
  running : (m.stepped k).cpu.halted = false
  holds : (m.stepped k).code.Holds (Prefixed.program PopTarget.bytes (ys.drop k))
  stacked : (m.stepped k).cpu.Stacked base (words.take (words.length - k))
  memory : (m.stepped k).cpu.memory = m.cpu.memory
  flags : (m.stepped k).cpu.flags = m.cpu.flags

section

variable {base : Word} {words : List Word} {ys : List (Prefixed PopTarget)} {k : Nat}

/-- One more pop takes the last word that is left. -/
theorem PoppedSoFar.succ (h : m.PoppedSoFar base words ys k) (lt : k < ys.length)
    (le : ys.length ≤ words.length) :
    (m.stepped k).step.1 = .ok .next ∧
      (m.stepped (k + 1)).cpu.registers.get ys[k].kind.target = words[words.length - 1 - k] ∧
      (∀ r, r ≠ ys[k].kind.target → r ≠ .sp → r ≠ .ip →
        (m.stepped (k + 1)).cpu.registers.get r = (m.stepped k).cpu.registers.get r) ∧
      m.PoppedSoFar base words ys (k + 1) := by
  obtain ⟨running, holds, stacked, memory, flags⟩ := h
  rw [List.drop_eq_getElem_cons lt, Prefixed.program, List.flatMap_cons] at holds
  have step := step_of_pop ys[k] running holds.left
  have left : words.take (words.length - k) =
      words.take (words.length - (k + 1)) ++ [words[words.length - 1 - k]] := by
    have one : words.length - k = words.length - 1 - k + 1 := by omega
    have fewer : words.length - (k + 1) = words.length - 1 - k := by omega
    rw [one, fewer, List.take_succ_eq_append_getElem]
  rw [left] at stacked
  obtain ⟨last, others⟩ := stacked.pop
  obtain ⟨-, -, -, notIp⟩ := ys[k].kind.target_ne
  have register (r : Register) (plain : r ≠ .ip) : (m.stepped (k + 1)).cpu.registers.get r =
      ((m.stepped k).cpu.pop.2.registers.set ys[k].kind.target
        words[words.length - 1 - k]).get r :=
    last ▸ get_step_of_pop ys[k] running holds.left plain
  refine ⟨congrArg Prod.fst step, ?taken, fun r other notSp plain => ?kept, ?_,
    holds_step_of_pop ys[k] running holds, stacked_step_of_pop ys[k] running holds.left others,
    (memory_step_of_pop ys[k] running holds.left).trans memory, ?_⟩
  case taken => rw [register _ notIp, Registers.get_set_self]
  case kept =>
    rw [register r plain, Registers.get_set_ne _ _ other]
    exact Registers.get_set_ne _ _ notSp
  · show (m.stepped k).step.2.cpu.halted = false
    rw [step]
    exact running
  · rw [← flags]
    show (m.stepped k).step.2.cpu.flags = _
    rw [step]
    rfl

/-- The machine when so many of them are done. -/
theorem poppedSoFar (running : m.cpu.halted = false)
    (holds : m.code.Holds (Prefixed.program PopTarget.bytes ys))
    (stacked : m.cpu.Stacked base words) (le : ys.length ≤ words.length) (done : k ≤ ys.length) :
    m.PoppedSoFar base words ys k := by
  induction k with
  | zero =>
      refine ⟨running, holds, ?_, rfl, rfl⟩
      rw [Nat.sub_zero, List.take_length]
      exact stacked
  | succ k ih => exact ((ih (Nat.le_of_succ_le done)).succ done le).2.2.2

end

end Machine

/-- The word of the flags on the stack: the nine flags on their bits, bits 1 and 12 to 15 set, and
bits 3 and 5 clear. -/
theorem Flags.pushed_bits (f : Flags) :
    (∀ flag, f.pushed.getLsbD flag.bit = f.get flag) ∧ f.pushed &&& 0xF02A = 0xF002#16 := by
  have others : ∀ c p a z s t i d o : Bool,
      (Flags.mk c p a z s t i d o).pushed &&& 0xF02A = 0xF002#16 := by
    decide +kernel
  refine ⟨fun flag => ?_, others _ _ _ _ _ _ _ _ _⟩
  rw [← Flags.get_unpack, Flags.unpack_pushed]

open Encoding in
/-- The stack gives back last what it was given first. Up to 32768 words are pushed, by themselves
or by a program whose bytes the stack keeps off; each of them is what its instruction finds in the
state before it. They lie below the former top and nothing else in memory has changed. As many words
as are popped afterwards, by themselves or into registers, come in reverse order. -/
theorem Machine.last_in_first_out :
    (∀ f : Flags,
      (∀ flag, f.pushed.getLsbD flag.bit = f.get flag) ∧ f.pushed &&& 0xF02A = 0xF002#16) ∧
    (∀ (c : Cpu) (words : List Word), words.length ≤ 0x8000 →
      (c.pushAll words).Stacked c.registers.sp words ∧
      (c.pushAll words).registers =
        { c.registers with sp := c.registers.sp - BitVec.ofNat 16 (2 * words.length) } ∧
      (∀ a, ¬c.UnderTop (2 * words.length) a →
        (c.pushAll words).memory.get a = c.memory.get a) ∧
      (c.pushAll words).popAll words.length =
        (words.reverse, (c.pushAll words).setRegister .sp c.registers.sp)) ∧
    ∀ (World : Type) (m : Machine World) (pushes : List (Prefixed PushSource))
      (pops : List (Prefixed PopTarget)),
      m.cpu.halted = false → pushes.length ≤ 0x8000 → pops.length ≤ pushes.length →
      let code := Prefixed.program PushSource.bytes pushes ++ Prefixed.program PopTarget.bytes pops
      m.code.Holds code →
      (∀ j < code.length, ¬m.cpu.UnderTop (2 * pushes.length)
        (m.cpu.address .cs (m.cpu.registers.ip + BitVec.ofNat 16 j))) →
      let n := pushes.length
      let sp := m.cpu.registers.sp
      let words := m.pushedWords pushes
      (∀ i < n + pops.length, (m.stepped i).step.1 = .ok .next) ∧
      (m.stepped n).cpu.Stacked sp words ∧
      (m.stepped n).cpu.registers =
        { m.cpu.registers with
          sp := sp - BitVec.ofNat 16 (2 * n)
          ip := m.cpu.registers.ip +
            BitVec.ofNat 16 (Prefixed.program PushSource.bytes pushes).length
          opIp := (m.stepped n).cpu.registers.opIp } ∧
      (∀ a, ¬m.cpu.UnderTop (2 * n) a →
        (m.stepped n).cpu.memory.get a = m.cpu.memory.get a) ∧
      (∀ j (h : j < pops.length),
        words.reverse[j]? =
          some ((m.stepped (n + (j + 1))).cpu.registers.get pops[j].kind.target) ∧
        ∀ r, r ≠ pops[j].kind.target → r ≠ .sp → r ≠ .ip →
          (m.stepped (n + (j + 1))).cpu.registers.get r =
            (m.stepped (n + j)).cpu.registers.get r) ∧
      ∀ k ≤ pops.length,
        (m.stepped (n + k)).cpu.registers.sp = sp - BitVec.ofNat 16 (2 * (n - k)) ∧
        (m.stepped (n + k)).cpu.memory = (m.stepped n).cpu.memory ∧
        (m.stepped (n + k)).cpu.flags = (m.stepped n).cpu.flags := by
  refine ⟨Flags.pushed_bits, fun c words room => ?_, ?_⟩
  · have stacked := Cpu.stacked_pushAll c room
    exact ⟨stacked, Cpu.registers_pushAll words, fun a => Cpu.get_pushAll, stacked.popAll⟩
  intro World m pushes pops running room fewer code holds apart n sp words
  have length : words.length = n := List.length_mapIdx
  obtain ⟨pushed, results⟩ := Machine.pushedSoFar running holds apart (Nat.le_refl n)
  have behind := pushed.holds (Nat.le_refl n) holds apart
  rw [List.drop_length] at behind
  obtain ⟨opIp, pending, state⟩ := pushed
  rw [List.take_length, List.take_of_length_le (Nat.le_of_eq length)] at state
  have registers : (m.stepped n).cpu.registers =
      (m.cpu.pushAll words).registers.relocate _ opIp := congrArg (·.cpu.registers) state
  have memory : (m.stepped n).cpu.memory = (m.cpu.pushAll words).memory :=
    congrArg (·.cpu.memory) state
  have stacked : (m.stepped n).cpu.Stacked sp words :=
    (Cpu.stacked_pushAll m.cpu (length ▸ room)).congr (by rw [registers]; rfl)
      (by rw [registers]; rfl) memory
  have still : (m.stepped n).cpu.halted = false := by
    rw [state, Cpu.halted_relocate, Cpu.halted_pushAll, running]
  have popped (k : Nat) (le : k ≤ pops.length) : (m.stepped n).PoppedSoFar sp words pops k :=
    Machine.poppedSoFar still behind stacked (length ▸ fewer) le
  have later (k : Nat) : m.stepped (n + k) = (m.stepped n).stepped k := m.stepped_add n k
  refine ⟨fun i hi => ?results, stacked, ?registers, fun a outside => ?memory,
    fun j hj => ?targets, fun k le => ?others⟩
  case results =>
    rcases Nat.lt_or_ge i n with early | late
    · exact results i early
    · obtain ⟨j, rfl⟩ := Nat.exists_eq_add_of_le late
      have hj : j < pops.length := Nat.lt_of_add_lt_add_left hi
      rw [later]
      exact ((popped j (Nat.le_of_lt hj)).succ hj (length ▸ fewer)).1
  case registers =>
    rw [registers, Cpu.registers_pushAll, length]
    rfl
  case memory =>
    rw [memory]
    exact Cpu.get_pushAll (length ▸ outside)
  case targets =>
    obtain ⟨-, taken, kept, -⟩ := (popped j (Nat.le_of_lt hj)).succ hj (length ▸ fewer)
    rw [later, later, List.getElem?_reverse (by omega), taken]
    exact ⟨List.getElem?_eq_getElem _, kept⟩
  case others =>
    obtain ⟨-, -, rest, memory, flags⟩ := popped k le
    rw [later]
    refine ⟨?_, memory, flags⟩
    rw [rest.sp, List.length_take, length, Nat.min_eq_left (Nat.sub_le n k)]

open Encoding in
/-- SP and then the flags are pushed, and popped into AX and ES. -/
theorem Machine.last_in_first_out_of_two :
    let m := booted [0x54, 0x9C, 0x58, 0x07]
    (m.stepped 4).cpu.registers.get .es = 0xFFFE ∧ (m.stepped 4).cpu.registers.sp = 0 := by
  intro m
  have holds : m.code.Holds [0x54, 0x9C, 0x58, 0x07] := code_booted (by decide)
  have running : m.cpu.halted = false := rfl
  have start : m.cpu.registers = .reset := rfl
  -- From here on only these facts about the machine count, not what its memory is made of.
  clear_value m
  let pushes : List (Prefixed PushSource) :=
    [⟨[], nofun, by decide, .register .stackPointer⟩, ⟨[], nofun, by decide, .flags⟩]
  let pops : List (Prefixed PopTarget) :=
    [⟨[], nofun, by decide, .register .accumulator (by decide)⟩, ⟨[], nofun, by decide, .es⟩]
  have apart (j : Nat) (inside : j < 4) : ¬m.cpu.UnderTop 4
      (m.cpu.address .cs (m.cpu.registers.ip + BitVec.ofNat 16 j)) := fun under =>
    not_underTop_interruptedCall start j (Nat.lt_trans inside (by decide)) (under.mono (by decide))
  obtain ⟨-, -, run⟩ := Machine.last_in_first_out
  obtain ⟨-, -, -, -, popped, rest⟩ :=
    run Unit m pushes pops running (by decide) (by decide) holds apart
  obtain ⟨es, -⟩ := popped 1 (by decide)
  obtain ⟨sp, -, -⟩ := rest 2 (by decide)
  have four : pushes.length + 2 = 4 := rfl
  have all : 2 * (pushes.length - 2) = 0 := rfl
  have first : (m.pushedWords pushes).reverse[1]? = some (m.cpu.registers.sp - 2) := by
    simp only [Machine.pushedWords, pushes, List.mapIdx_cons, List.mapIdx_nil]
    rfl
  rw [four] at es sp
  rw [first, start] at es
  rw [all, start] at sp
  have below : Registers.reset.sp - 2 = 0xFFFE := by decide
  have back : Registers.reset.sp - BitVec.ofNat 16 0 = 0 := by decide
  have target : pops[1].kind.target = .es := rfl
  rw [target] at es
  exact ⟨(Option.some.inj es).symm.trans below, sp.trans back⟩

end I8086
