import I8086.Proofs.Action.Pairs
import I8086.Proofs.PrefixFields
import I8086.Proofs.Synonyms

/-!
# Encodings of the same operation agree

The two encodings of an operation go to handlers that have been written apart for the most part, and
take what belongs to them from the instruction stream in ways of their own. `Action.Pairs` compares
them one by one, behind a ModR/M byte that names the register in question. Here two runtimes that
differ only in which of two encodings stands at `CS:IP` take a step each, with whatever prefixes are
in front of it.
-/

namespace I8086.Runtime

variable {World : Type} {r r' : Runtime World} {bytes e e' : List Byte}

/-- The bytes of the instruction at hand, whichever of two encodings is there. -/
def InEncodings (r : Runtime World) (bytes e e' : List Byte) : Address → Prop :=
  r.cpu.Within .cs r.cpu.registers.ip (bytes.length + max e.length e'.length)

/-- Encodings of the same operation agree. The second runtime differs from the first at most in the
bytes of the instruction at hand, which is there in the other encoding, behind the same prefixes;
what the instruction reads lies elsewhere. Then both take a step with the same result and differ
afterwards in the same bytes at most, and in IP by the difference in length, or after a return not
even in that. When SP is pushed, the word on the stack is SP as it is after the push, and when it is
popped, SP is the word that was on the stack. -/
theorem step_of_sameOperation
    (same : Encoding.SameOperation (r.cpu.registers.low .cx) e e')
    (running : r.cpu.halted = false)
    (holds : r.code.Holds (bytes ++ e)) (holds' : r'.code.Holds (bytes ++ e'))
    (prefixes : ∀ b ∈ bytes, b.IsPrefix) (short : bytes.length < maxPrefixRun)
    (rest : r' = { r with cpu := r'.cpu })
    (alike : Cpu.Alike (r.InEncodings bytes e e') r.cpu r'.cpu)
    (apart : ∀ i length, r.fetched = .instruction i length →
      Cpu.Apart (i.Reads r.cpu) (r.InEncodings bytes e e')) :
    let after := r.step.2.cpu
    let after' := r'.step.2.cpu
    r.step.1 = .ok .next ∧ r'.step = (.ok .next, { r.step.2 with cpu := after' }) ∧
      after'.registers =
        { after.registers with
          ip := after.registers.ip + Machine.encodingDistance e e' } ∧
      after'.flags = after.flags ∧ after'.halted = after.halted ∧
      (∀ a, ¬r.InEncodings bytes e e' a → after'.memory.get a = after.memory.get a) ∧
      (e = [0x54] → after.readWord .ss after.registers.sp = after.registers.sp ∧
        after'.readWord .ss after'.registers.sp = after'.registers.sp) ∧
      (e = [0x5C] → after.registers.sp = r.cpu.readWord .ss r.cpu.registers.sp) := by
  obtain ⟨c', rfl⟩ : ∃ c', r' = { r with cpu := c' } := ⟨_, rest⟩
  have awake' : ({ r with cpu := c' } : Runtime World).cpu.halted = false :=
    alike.halted.trans running
  have start : ({ r with cpu := c' } : Runtime World).instructionStart = r.instructionStart := by
    rw [instructionStart, instructionStart, alike.registers]
  rw [step_eq_resumed running, step_eq_resumed awake']
  have there := r.code_resumed ▸ holds
  have there' := ({ r with cpu := c' } : Runtime World).code_resumed ▸ holds'
  have apart' : ∀ i length, r.resumed.fetched = .instruction i length →
      Cpu.Apart (i.Reads r.cpu) (r.InEncodings bytes e e') := by
    rw [fetched_resumed]
    exact apart
  rw [resumed_eq] at there there' apart' ⊢
  rw [resumed_eq, start]
  rw [start] at there'
  obtain ⟨next, step', registers, flags, halted, memory, pushed, popped⟩ :=
    Machine.step_sameOperation same running there there' prefixes short rfl (alike.setOpIp _) apart'
  refine ⟨next, ?_, registers, flags, halted, memory, pushed, popped⟩
  exact congrArg (fun result => (result.1, of result.2)) step'

/-- Both ways of pushing the stack pointer, with a prefix. -/
theorem step_of_sameOperation_of_push_stackPointer :
    let r := of (Machine.booted [0x26, 0x54])
    let r' := of (Machine.booted [0x26, 0xFF, 0xF4])
    r.step.1 = .ok .next ∧ r'.step.1 = .ok .next ∧
      r'.step.2.cpu.registers.ip = r.step.2.cpu.registers.ip + 1 ∧
      r'.step.2.cpu.readWord .ss r'.step.2.cpu.registers.sp = r'.step.2.cpu.registers.sp := by
  have general (m m' : Machine Unit) (running : m.cpu.halted = false)
      (holds : m.code.Holds ([0x26] ++ [0x54])) (holds' : m'.code.Holds ([0x26] ++ [0xFF, 0xF4]))
      (rest : m' = { m with cpu := m'.cpu })
      (alike : Cpu.Alike (m.InEncodings [0x26] [0x54] [0xFF, 0xF4]) m.cpu m'.cpu) :
      (of m).step.1 = .ok .next ∧ (of m').step.1 = .ok .next ∧
        (of m').step.2.cpu.registers.ip = (of m).step.2.cpu.registers.ip + 1 ∧
        (of m').step.2.cpu.readWord .ss (of m').step.2.cpu.registers.sp =
          (of m').step.2.cpu.registers.sp := by
    have apart : ∀ i length, (of m).fetched = .instruction i length →
        Cpu.Apart (i.Reads m.cpu) (m.InEncodings [0x26] [0x54] [0xFF, 0xF4]) := by
      intro i length fetched
      have push := Machine.fetched_of_decode? (i := .push (.register .stackPointer)) holds
        (by decide) (by decide) rfl
      rw [of_fetched, push] at fetched
      cases fetched
      exact nofun
    have same : Encoding.SameOperation (m.cpu.registers.low .cx) [0x54] [0xFF, 0xF4] := .push 4
    have code : (of m).code.Holds ([0x26] ++ [0x54]) := holds
    have code' : (of m').code.Holds ([0x26] ++ [0xFF, 0xF4]) := holds'
    have fields : of m' = { of m with cpu := (of m').cpu } := congrArg of rest
    obtain ⟨next, step', registers, -, -, -, pushed, -⟩ :=
      step_of_sameOperation same running code code' (by decide) (by decide) fields alike apart
    refine ⟨next, congrArg Prod.fst step', ?_, (pushed rfl).2⟩
    rw [registers]
    rfl
  exact general _ _ rfl (Machine.code_booted (by decide)) (Machine.code_booted (by decide)) rfl
    (Machine.alike_booted _ _ (by decide) (by decide) (by decide))

end I8086.Runtime
