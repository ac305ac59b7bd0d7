import I8086.Proofs.Action.Execute

/-!
# A step bit by bit

`Runtime.step` takes a step in the order in which an interpreter does. It takes bytes as long as
they are prefixes, and keeps in its fields what they ask for; the first other byte goes to the
handler of its opcode; and whatever has come of it, the fields are cleared, and IP is put back if
the instruction turns out to be illegal. A step begins with the segment and the repetition as it
finds them, whether a run of prefixes goes on or not. Up to the place where a handler gives up an
encoding that is not defined, only IP and these two have been changed
(`attempt_fetchAndExecute_of_undefined`).
-/

namespace I8086.Runtime

variable {World : Type}

namespace Action

/-- Takes note of what a prefix asks for. -/
def notePrefix : Opcode → Action World Unit
  | .segmentOverride s => modify ({ · with segmentOverride := some s })
  | .repeatString repetition => modify ({ · with repetition := some repetition })
  | _ => return

/-- Takes prefixes and the instruction behind them, and executes it. There is none if the prefixes
leave no room for it. -/
def fetchAndExecute : (room : Nat) → Action World (Option Step)
  | 0 => return none
  | room + 1 => do
    let opcode ← fetchByte
    match Opcode.ofByte? opcode with
    | none => illegal opcode
    | some op =>
      if op.isPrefix then
        notePrefix op
        fetchAndExecute room
      else
        return some (← execute op opcode)

end Action

open I8086.Runtime.Action

/-- Takes note of where an instruction begins, unless its prefixes began earlier. -/
def markStart (r : Runtime World) : Runtime World :=
  if r.prefixPending then r else { r with cpu.registers.opIp := r.cpu.registers.ip }

/-- Ends a step. A step that has taken prefixes only keeps the fields for the next one; any other
clears them. Where an illegal instruction is reported IP goes back to the start. -/
def conclude : Except Fault (Option Step) × Runtime World → Except Fault Step × Runtime World
  | (.ok none, r) => (.ok .next, { r with prefixPending := true, count := r.count + 1 })
  | (.ok (some step), r) => (.ok step, { r.clearPrefixes with count := r.count + 1 })
  | (.error (.illegalInstruction opcode cs ip), r) =>
    (.error (.illegalInstruction opcode cs ip),
      { r.clearPrefixes with cpu := r.cpu.jump r.cpu.registers.opIp })
  | (.error fault, r) => (.error fault, r.clearPrefixes)

/-- Executes one instruction with its prefixes. -/
def step (r : Runtime World) : Except Fault Step × Runtime World :=
  if r.cpu.halted then (.ok .halted, r)
  else conclude (r.markStart.attempt (fetchAndExecute maxPrefixRun))

section

variable {r : Runtime World} {bytes : List Byte}

theorem code_withPrefixes (p : Prefixes) : (r.withPrefixes p).code = r.code := rfl

theorem attempt_notePrefix (op : Opcode) :
    r.attempt (notePrefix op) = (.ok (), r.withPrefixes (r.prefixes.add op)) := by
  cases op <;> rfl

theorem attempt_fetchAndExecute_of_isPrefix (isPrefix : (r.code 0).IsPrefix) (room : Nat) :
    r.attempt (fetchAndExecute (room + 1)) =
      ((r.withPrefixes (r.prefixes.extend [r.code 0])).skip 1).attempt (fetchAndExecute room) := by
  obtain ⟨op, decoded, taken, effect⟩ := Prefixes.add_of_isPrefix isPrefix
  rw [fetchAndExecute, attempt_fetchByte_bind, decoded]
  dsimp only
  rw [if_pos taken, attempt_bind_of_ok (attempt_notePrefix op), ← effect]
  rfl

/-- A run of prefixes is taken, whatever room it leaves. -/
theorem attempt_fetchAndExecute_of_prefixes (holds : r.code.Holds bytes)
    (prefixes : ∀ b ∈ bytes, b.IsPrefix) (room : Nat) :
    r.attempt (fetchAndExecute (bytes.length + room)) =
      ((r.withPrefixes (r.prefixes.extend bytes)).skip bytes.length).attempt
        (fetchAndExecute room) := by
  induction bytes generalizing r with
  | nil =>
      rw [List.length_nil, Nat.zero_add, skip_zero]
      rfl
  | cons b bytes ih =>
      have first : (r.code 0).IsPrefix := holds.head ▸ prefixes b List.mem_cons_self
      have behind : ((r.withPrefixes (r.prefixes.extend [b])).skip 1).code.Holds bytes := by
        rw [code_skip]
        exact holds.tail
      have rest := ih behind fun c hc => prefixes c (List.mem_cons_of_mem b hc)
      rw [List.length_cons, Nat.add_right_comm, attempt_fetchAndExecute_of_isPrefix first,
        holds.head, rest, Nat.add_comm bytes.length, ← skip_skip]
      have effect : (r.prefixes.extend [b]).extend bytes = r.prefixes.extend (b :: bytes) :=
        Prefixes.extend_extend _ [b] bytes
      rw [← effect]
      rfl

/-- Behind the prefixes an instruction is carried out. -/
theorem attempt_fetchAndExecute_of_decode? (stop : ¬(r.code 0).IsPrefix) {i : Instruction}
    {length : Nat} (decoded : r.code.decode? r.prefixes = some (i, length)) (room : Nat) :
    r.attempt (fetchAndExecute (room + 1)) =
      (((r.skip length).carryOut i).1.map some, ((r.skip length).carryOut i).2) := by
  unfold Code.decode? at decoded
  simp only [Option.map_eq_some_iff, Option.bind_eq_some_iff] at decoded
  obtain ⟨⟨j, rest⟩, ⟨op, opcode, operands⟩, pair⟩ := decoded
  cases pair
  have plain := Prefixes.isPrefix_eq_false stop opcode
  have done : (r.skip 1).attempt (execute op (r.code 0)) = (r.skip (1 + rest)).carryOut j := by
    have prefixes : (r.skip 1).prefixes = r.prefixes := rfl
    rw [attempt_execute _ plain, prefixes, code_skip, operands, completed, skip_skip]
  rw [fetchAndExecute, attempt_fetchByte_bind, opcode]
  dsimp only
  rw [plain, if_neg Bool.false_ne_true, attempt_bind, done]
  rcases (r.skip (1 + rest)).carryOut j with ⟨fault | step, s⟩ <;> rfl

/-- Where the bytes behind the prefixes are no instruction, only IP has been moved when that is
found out, over the opcode and perhaps over a ModR/M byte and its displacement. -/
theorem attempt_fetchAndExecute_of_undefined (stop : ¬(r.code 0).IsPrefix)
    (undefined : r.code.decode? r.prefixes = none) (room : Nat) :
    ∃ n, r.attempt (fetchAndExecute (room + 1)) =
      (.error (.illegalInstruction (r.code 0) r.cpu.registers.cs r.cpu.registers.opIp),
        r.skip n) := by
  rw [fetchAndExecute, attempt_fetchByte_bind]
  unfold Code.decode? at undefined
  rw [Option.map_eq_none_iff] at undefined
  cases opcode : Opcode.ofByte? (r.code 0) with
  | none => exact ⟨1, rfl⟩
  | some op =>
      have plain := Prefixes.isPrefix_eq_false stop opcode
      rw [opcode, Option.bind_some] at undefined
      have prefixes : (r.skip 1).prefixes = r.prefixes := rfl
      have givenUp : (r.skip 1).attempt (execute op (r.code 0)) =
          (r.skip 1).pastModRM.attempt (illegal (r.code 0)) := by
        rw [attempt_execute _ plain, prefixes, code_skip, undefined, completed]
      dsimp only
      rw [plain, if_neg Bool.false_ne_true, attempt_bind, givenUp, pastModRM, skip_skip]
      exact ⟨_, rfl⟩

/-! ## The bytes of a step -/

theorem step_of_halted (halted : r.cpu.halted = true) : r.step = (.ok .halted, r) := if_pos halted

/-- The place where the instruction at hand begins: where its prefixes began, or IP. -/
def instructionStart (r : Runtime World) : Word :=
  if r.prefixPending then r.cpu.registers.opIp else r.cpu.registers.ip

theorem markStart_eq (r : Runtime World) :
    r.markStart = { r with cpu.registers.opIp := r.instructionStart } := by
  unfold markStart instructionStart
  split <;> rfl

theorem code_markStart (r : Runtime World) : r.markStart.code = r.code := by
  unfold markStart
  split <;> rfl

theorem prefixes_markStart (r : Runtime World) : r.markStart.prefixes = r.prefixes := by
  unfold markStart
  split <;> rfl

theorem halted_markStart (r : Runtime World) : r.markStart.cpu.halted = r.cpu.halted := by
  unfold markStart
  split <;> rfl

/-- The runtime when so many prefixes have been taken. -/
def behind (r : Runtime World) (bytes : List Byte) : Runtime World :=
  (r.markStart.withPrefixes (r.prefixes.extend bytes)).skip bytes.length

theorem code_behind (r : Runtime World) (bytes : List Byte) :
    (r.behind bytes).code = r.code.drop bytes.length := by
  rw [behind, code_skip, code_withPrefixes, code_markStart]

/-- A step takes the prefixes that it finds, and goes on behind them if they leave room. -/
theorem step_of_prefixes (running : r.cpu.halted = false) (holds : r.code.Holds bytes)
    (prefixes : ∀ b ∈ bytes, b.IsPrefix) {room : Nat} (rest : maxPrefixRun = bytes.length + room) :
    r.step = conclude ((r.behind bytes).attempt (fetchAndExecute room)) := by
  have here : r.markStart.code.Holds bytes := r.code_markStart ▸ holds
  rw [step, running, if_neg Bool.false_ne_true, rest,
    attempt_fetchAndExecute_of_prefixes here prefixes, prefixes_markStart]
  rfl

end

end I8086.Runtime
