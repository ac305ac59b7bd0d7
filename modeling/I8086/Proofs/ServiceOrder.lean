import I8086.Proofs.VectorTable

/-!
# Services, one assignment after the other

`Dos.perform` gives the reply of a service at once. Here every service is a sequence of operations
on a processor and a terminal that it changes one after the other: it reads registers and memory,
asks the terminal, and assigns to registers, flags and memory. An operation that fails ends the
service, and what has been assigned before stays assigned. `attempt_serving` says that the replies
are those of `Dos.serve`; so no service assigns anything before the last operation that can fail,
and none fails in the middle of an access to memory.
-/

namespace I8086.Dos

variable {C : Type} {α β : Type}

/-- Something that is done on a processor and a terminal and may fail. -/
abbrev Action (C : Type) := ExceptT Fault (StateM (Cpu × Terminal C))

/-- What an action returns, and the processor and the terminal that it leaves. -/
def attempt (action : Action C α) (c : Cpu) (t : Terminal C) :
    Except Fault α × Cpu × Terminal C := action.run.run (c, t)

namespace Action

/-- Reads from the processor. -/
def inspect (f : Cpu → α) : Action C α := return f (← get).1

/-- Changes the processor. -/
def assign (f : Cpu → Cpu) : Action C Unit := modify fun (c, t) => (f c, t)

/-- Asks the terminal for something, which changes it in any case. -/
def request (ask : Terminal C → Console.Outcome (Terminal C) α) : Action C α := do
  let (c, t) ← get
  match ask t with
  | (.ok a, t) =>
    set (c, t)
    return a
  | (.error reason, t) =>
    set (c, t)
    throw (.io reason)

/-- Forgets the key that has been taken from the console. -/
def dropKey : Action C Unit := modify fun (c, t) => (c, { t with lookahead := none })

/-- The word at a linear address. -/
def fetch (address : Nat) : Action C Word := do
  match (← get).1.memory.readWord address with
  | .ok v => return v
  | .error fault => throw fault

/-- Replaces the word at a linear address. -/
def store (address : Nat) (v : Word) : Action C Unit := do
  match (← get).1.memory.writeWord address v with
  | .ok memory => assign fun c => { c with memory }
  | .error fault => throw fault

end Action

open I8086.Dos.Action

/-! ## What operations do -/

section

variable {c : Cpu} {t : Terminal C}

@[simp] theorem attempt_pure (a : α) : attempt (pure a : Action C α) c t = (.ok a, c, t) := rfl

/-- An action that succeeds is followed by the next one, on what it leaves. One that fails is the
last. -/
theorem attempt_bind (first : Action C α) (next : α → Action C β) :
    attempt (first >>= next) c t =
      match attempt first c t with
      | (.ok a, c, t) => attempt (next a) c t
      | (.error fault, c, t) => (.error fault, c, t) := by
  unfold attempt
  simp only [ExceptT.run_bind, StateT.run_bind]
  rcases first.run.run (c, t) with ⟨_ | _, _⟩ <;> rfl

@[simp] theorem attempt_inspect_bind (f : Cpu → α) (next : α → Action C β) :
    attempt (inspect f >>= next) c t = attempt (next (f c)) c t := rfl

@[simp] theorem attempt_assign_bind (f : Cpu → Cpu) (next : Unit → Action C β) :
    attempt (assign f >>= next) c t = attempt (next ()) (f c) t := rfl

@[simp] theorem attempt_dropKey_bind (next : Unit → Action C β) :
    attempt (dropKey >>= next) c t = attempt (next ()) c { t with lookahead := none } := rfl

/-- A request that fails is a failure of the host. -/
@[simp] theorem attempt_request_bind (ask : Terminal C → Console.Outcome (Terminal C) α)
    (next : α → Action C β) :
    attempt (request ask >>= next) c t =
      match ask t with
      | (.ok a, t) => attempt (next a) c t
      | (.error reason, t) => (.error (.io reason), c, t) := by
  have asked : attempt (request ask) c t =
      attempt (match ask t with
        | (.ok a, t) => do
          set (c, t)
          return a
        | (.error reason, t) => do
          set (c, t)
          throw (.io reason)) c t := rfl
  rw [attempt_bind, asked]
  rcases ask t with ⟨_ | _, _⟩ <;> rfl

/-- No access to a word inside memory fails. -/
theorem attempt_fetch_bind {address : Nat} (inside : address + 2 ≤ memorySize)
    (next : Word → Action C β) :
    attempt (fetch address >>= next) c t =
      attempt (next (c.memory.word (BitVec.ofNat 20 address))) c t := by
  have fetched : attempt (fetch address) c t =
      attempt (match c.memory.readWord address with
        | .ok v => return v
        | .error fault => throw fault) c t := rfl
  rw [attempt_bind, fetched, Memory.readWord_of_fits _ inside]
  rfl

theorem attempt_store_bind {address : Nat} (inside : address + 2 ≤ memorySize) (v : Word)
    (next : Unit → Action C β) :
    attempt (store address v >>= next) c t =
      attempt (next ())
        { c with memory := c.memory.storeWord (BitVec.ofNat 20 address) v } t := by
  have stored : attempt (store address v) c t =
      attempt (match c.memory.writeWord address v with
        | .ok memory => assign fun c => { c with memory }
        | .error fault => throw fault) c t := rfl
  rw [attempt_bind, stored, Memory.writeWord_of_fits _ _ inside]
  rfl

end

/-! ## Replies -/

/-- What a reply returns, and the processor and the terminal in it. -/
def outcome (reply : Reply (Terminal C)) : Except Fault Service × Cpu × Terminal C :=
  (reply.service, reply.cpu, reply.world)

/-- In a reply, every assignment comes after the request. -/
theorem outcome_reply (asked : Console.Outcome (Terminal C) α) (c : Cpu) (after : α → Cpu) :
    outcome (Terminal.reply asked c after) =
      match asked with
      | (.ok a, t) => (.ok .done, after a, t)
      | (.error reason, t) => (.error (.io reason), c, t) := by
  rcases asked with ⟨_ | _, _⟩ <;> rfl

/-! ## The services -/

variable [Console C]

/-- Writes the byte in DL. -/
def writingCharacter : Action C Service := do
  let dl ← inspect (·.registers.low .dx)
  request (·.writeByte dl)
  assign (·.setLow .ax dl)
  return .done

/-- Serves one function. -/
def performing (config : Config) : Function → Action C Service
  | .programTerminate => return .terminate 0
  | .characterInput => do
    let key ← request Terminal.readKey
    request (·.writeByte key)
    assign (·.setLow .ax key)
    return .done
  | .characterOutput => writingCharacter
  | .directConsoleIo => do
    let dl ← inspect (·.registers.low .dx)
    if dl = 0xFF then
      let key ← request Terminal.pollKey
      dropKey
      assign (·.setLow .ax (key.getD 0))
      assign (·.setFlag .zero key.isNone)
      return .done
    else writingCharacter
  | .directConsoleInput | .consoleInputNoEcho => do
    let key ← request Terminal.readKey
    assign (·.setLow .ax key)
    return .done
  | .displayString => do
    let bytes ← inspect fun c => text c c.registers.dx
    request (·.write bytes)
    assign (·.setLow .ax textEnd)
    return .done
  | .inputStatus => do
    let key ← request Terminal.pollKey
    assign (·.setLow .ax (if key.isSome then 0xFF else 0))
    return .done
  | .setVector => do
    let vector ← inspect (·.registers.low .ax)
    let segment ← inspect (·.registers.ds)
    let offset ← inspect (·.registers.dx)
    store (4 * vector.toNat) offset
    store (4 * vector.toNat + 2) segment
    return .done
  | .getVersion => do
    assign (·.setLow .ax config.major)
    assign (·.setHigh .ax config.minor)
    assign (·.setHigh .bx config.oem.number)
    assign (·.setLow .bx 0)
    assign (·.setRegister .cx 0)
    return .done
  | .getVector => do
    let vector ← inspect (·.registers.low .ax)
    let offset ← fetch (4 * vector.toNat)
    let segment ← fetch (4 * vector.toNat + 2)
    assign (·.setRegister .es segment)
    assign (·.setRegister .bx offset)
    return .done
  | .writeFile => do
    let handle ← inspect (·.registers.bx)
    if handle = 1 ∨ handle = 2 then
      let count ← inspect (·.registers.cx)
      let bytes ← inspect fun c => dataBytes c c.registers.dx count.toNat
      request (·.write bytes)
      assign (·.setRegister .ax count)
      assign (·.setFlag .carry false)
      return .done
    else
      assign (·.setRegister .ax invalidHandle)
      assign (·.setFlag .carry true)
      return .done
  | .terminate => return .terminate (← inspect (·.registers.low .ax))
  | _ => return .unimplemented (← inspect (·.registers.high .ax))

/-- Serves an interrupt. -/
def serving (config : Config) (vector : Byte) : Action C Service := do
  if vector = terminateVector then return .terminate 0
  let ah ← inspect (·.registers.high .ax)
  if vector = serviceVector then
    match Function.ofNumber? ah.toNat with
    | some f => performing config f
    | none => return .unimplemented ah
  else return .unimplemented ah

/-! ## What the services leave -/

variable {config : Config} {c : Cpu} {t : Terminal C}

theorem attempt_writingCharacter :
    attempt writingCharacter c t = outcome (writeCharacter c t) := by
  rw [writeCharacter, outcome_reply, writingCharacter, attempt_inspect_bind, attempt_request_bind]
  simp only [attempt_assign_bind, attempt_pure]

/-- Both words of an entry of the vector table lie inside memory. -/
theorem room_for_entry (vector : Byte) : 4 * vector.toNat + 2 + 2 ≤ memorySize := by
  have small := vector.isLt
  have size : memorySize = 0x100000 := rfl
  omega

theorem ofNat_entry (vector : Byte) :
    BitVec.ofNat 20 (4 * vector.toNat) = Cpu.vectorAddress vector := by
  rw [← Cpu.toNat_vectorAddress, BitVec.ofNat_toNat, BitVec.setWidth_eq]

theorem ofNat_entry_add (vector : Byte) :
    BitVec.ofNat 20 (4 * vector.toNat + 2) = Cpu.vectorAddress vector + 2 := by
  rw [← Cpu.toNat_vectorAddress_add, BitVec.ofNat_toNat, BitVec.setWidth_eq]

/-- Version and maker are reported half by half. -/
theorem reportVersion_halves (config : Config) (c : Cpu) :
    ((((c.setLow .ax config.major).setHigh .ax config.minor).setHigh .bx
      config.oem.number).setLow .bx 0).setRegister .cx 0 = reportVersion config c := by
  simp only [Cpu.setLow, Cpu.setHigh, Cpu.setRegister, reportVersion, Registers.setLow,
    Registers.setHigh, Registers.low, Registers.high, Registers.get, Registers.set,
    Word.low_ofBytes, Word.high_ofBytes]

/-- One function, in order, leaves what its reply says. -/
theorem attempt_performing (f : Function) :
    attempt (performing config f) c t = outcome (perform config f c t) := by
  cases f with
  | characterInput =>
      rw [perform, outcome_reply, echoKey]
      simp only [performing, attempt_request_bind, attempt_assign_bind, attempt_pure]
      rcases t.readKey with ⟨_ | key, read⟩
      · rfl
      · rcases shown : read.writeByte key with ⟨_ | _, _⟩ <;> simp only [shown] <;> rfl
  | characterOutput => exact attempt_writingCharacter
  | directConsoleIo =>
      simp only [perform, performing, attempt_inspect_bind]
      by_cases input : c.registers.low .dx = 0xFF
      · rw [if_pos input, if_pos input, directInput]
        simp only [attempt_request_bind, attempt_dropKey_bind, attempt_assign_bind, attempt_pure]
        rcases t.pollKey with ⟨_ | _, _⟩ <;> rfl
      · rw [if_neg input, if_neg input]
        exact attempt_writingCharacter
  | directConsoleInput | consoleInputNoEcho =>
      rw [perform, outcome_reply]
      simp only [performing, attempt_request_bind, attempt_assign_bind, attempt_pure]
  | displayString =>
      -- Rewriting leaves the text as it is, which simplification would begin to read.
      rw [perform, outcome_reply, performing, attempt_inspect_bind, attempt_request_bind]
      simp only [attempt_assign_bind, attempt_pure]
  | inputStatus =>
      rw [perform, outcome_reply]
      simp only [performing, attempt_request_bind, attempt_assign_bind, attempt_pure]
  | setVector =>
      have last := room_for_entry (c.registers.low .ax)
      have first := Nat.le_of_add_right_le last
      simp only [performing, attempt_inspect_bind, attempt_store_bind first,
        attempt_store_bind last, attempt_pure, ofNat_entry, ofNat_entry_add]
      rw [← Cpu.memory_writeVector]
      rfl
  | getVersion =>
      simp only [performing, attempt_assign_bind, attempt_pure, reportVersion_halves]
      rfl
  | getVector =>
      have last := room_for_entry (c.registers.low .ax)
      have first := Nat.le_of_add_right_le last
      simp only [performing, attempt_inspect_bind, attempt_fetch_bind first,
        attempt_fetch_bind last, attempt_assign_bind, attempt_pure, ofNat_entry, ofNat_entry_add]
      rfl
  | writeFile =>
      simp only [perform, performing, attempt_inspect_bind, writeHandle]
      by_cases opened : c.registers.bx = 1 ∨ c.registers.bx = 2
      · rw [if_pos opened, if_pos opened, outcome_reply]
        simp only [attempt_inspect_bind, attempt_request_bind, attempt_assign_bind, attempt_pure]
      · rw [if_neg opened, if_neg opened]
        rfl
  | _ => rfl

/-- The replies of the services are what comes out when everything is done in order. -/
theorem attempt_serving (config : Config) (vector : Byte) (c : Cpu) (t : Terminal C) :
    attempt (serving config vector) c t = outcome (serve config vector c t) := by
  by_cases ends : vector = terminateVector
  · rw [serving, serve, if_pos ends, if_pos ends]
    rfl
  · rw [serving, serve, if_neg ends, if_neg ends]
    simp only [attempt_inspect_bind]
    by_cases numbered : vector = serviceVector
    · rw [if_pos numbered, if_pos numbered]
      cases Function.ofNumber? (c.registers.high .ax).toNat with
      | none => rfl
      | some f => exact attempt_performing f
    · rw [if_neg numbered, if_neg numbered]
      rfl

end I8086.Dos
