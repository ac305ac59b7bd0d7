import I8086.Proofs.FlagWord
import I8086.Proofs.PendingRun
import I8086.Proofs.PrefixFields
import I8086.Proofs.Rejection

/-!
# What holds after every history

A host may reset a machine, load bytes and programs into it, register handlers, raise interrupts,
and let it step and run, in any order and whether or not these requests succeed. `Machine.after` is
the machine after such a history. Some facts hold after every history. That pending prefixes are
those in front of IP is one that a host can break, by moving IP or by overwriting them; it holds as
long as the machine has been left to itself since it was last started.
-/

namespace I8086

variable {World : Type}

/-- What a host may ask of a machine. -/
inductive Request (World : Type) where
  | reset
  | loadProgram (program : List Byte)
  | loadAt (segment offset : Word) (data : List Byte)
  | registerHandler (first last : Byte) (handler : Handler World)
  | raise (vector : Byte)
  | step
  | run (limit : Option Nat)

namespace Request

/-- The requests that start the machine afresh: a reset, and a program that fits. -/
def Restarts : Request World → Prop
  | reset => True
  | loadProgram program => program.length ≤ maxProgramSize
  | _ => False

/-- The requests that leave the machine to itself. -/
def Continues : Request World → Prop
  | step | run _ => True
  | _ => False

end Request

namespace Machine

/-- The machine after a request. One that is refused changes nothing. -/
def apply (m : Machine World) : Request World → Machine World
  | .reset => m.reset
  | .loadProgram program => (m.loadProgram program).toOption.getD m
  | .loadAt segment offset data => (m.loadAt segment offset data).toOption.getD m
  | .registerHandler first last handler => m.registerHandler first last handler
  | .raise vector => (m.raise vector).2
  | .step => m.step.2
  | .run limit => (m.run limit).2

/-- The machine after a history of requests. -/
def after (m : Machine World) (requests : List (Request World)) : Machine World :=
  requests.foldl apply m

theorem after_append (m : Machine World) (before rest : List (Request World)) :
    m.after (before ++ rest) = (m.after before).after rest := List.foldl_append

/-- What every request of a history keeps holds after it. -/
theorem after_induction {P : Machine World → Prop} {requests : List (Request World)}
    (kept : ∀ q ∈ requests, ∀ m, P m → P (m.apply q)) {m : Machine World} (start : P m) :
    P (m.after requests) := by
  induction requests generalizing m with
  | nil => exact start
  | cons q requests ih =>
      apply ih
      · intro q' among
        exact kept q' (List.mem_cons_of_mem q among)
      · exact kept q List.mem_cons_self m start

/-- What every step keeps holds after a run. -/
theorem runFor_induction {P : Machine World → Prop} (kept : ∀ m, P m → P m.step.2) (n : Nat)
    {m : Machine World} (start : P m) : P (m.runFor n).2 := by
  induction n generalizing m with
  | zero => exact start
  | succ n ih =>
      rw [runFor_succ]
      cases ending? m.step.1 with
      | some outcome => exact kept m start
      | none => exact ih (kept m start)

end Machine

namespace Runtime

/-- The runtime after a request. One that is refused changes nothing. -/
def apply (r : Runtime World) : Request World → Runtime World
  | .reset => r.reset
  | .loadProgram program => (r.loadProgram program).toOption.getD r
  | .loadAt segment offset data => (r.loadAt segment offset data).toOption.getD r
  | .registerHandler first last handler => r.registerHandler first last handler
  | .raise vector => (r.raise vector).2
  | .step => r.step.2
  | .run limit => (r.run limit).2

/-- The runtime after a history of requests. -/
def after (r : Runtime World) (requests : List (Request World)) : Runtime World :=
  requests.foldl apply r

theorem of_apply (m : Machine World) (q : Request World) : (of m).apply q = of (m.apply q) := by
  cases q with
  | reset => exact of_reset m
  | loadProgram program =>
      unfold apply Machine.apply
      dsimp only
      rw [of_loadProgram]
      cases m.loadProgram program <;> rfl
  | loadAt segment offset data =>
      unfold apply Machine.apply
      dsimp only
      rw [of_loadAt]
      cases m.loadAt segment offset data <;> rfl
  | registerHandler first last handler => exact of_registerHandler m first last handler
  | raise vector => exact congrArg Prod.snd (of_raise m vector)
  | step => exact congrArg Prod.snd (of_step m)
  | run limit => exact congrArg Prod.snd (of_run m limit)

/-- Whatever has happened, the three fields are those of a machine. -/
theorem of_after (m : Machine World) (requests : List (Request World)) :
    (of m).after requests = of (m.after requests) := by
  induction requests generalizing m with
  | nil => rfl
  | cons q requests ih => exact (congrArg (·.after requests) (of_apply m q)).trans (ih _)

end Runtime

/-! ## Halting -/

/-- The handler leaves a running processor running. -/
def Handler.KeepsRunning (handler : Handler World) : Prop :=
  ∀ vector c world, c.halted = false → (handler.serve vector c world).cpu.halted = false

namespace Machine

/-- No handler stops the processor, and prefixes are pending only while it runs. -/
structure Settled (m : Machine World) : Prop where
  handlers : ∀ r ∈ m.bus.registrations, r.target.KeepsRunning
  running : m.pending.isSome → m.cpu.halted = false

variable {m : Machine World}

theorem bus_raise (m : Machine World) (vector : Byte) : (m.raise vector).2.bus = m.bus := by
  cases claimed : m.bus.target? vector with
  | some handler => rw [raise_of_target claimed, serve_eq]
  | none =>
      rw [raise_of_none claimed]
      split <;> rfl

theorem bus_perform (m : Machine World) (i : Instruction) (length : Nat) :
    (m.perform i length).2.bus = m.bus := by
  rw [perform_eq, bus_concluded]
  cases m.signal i length with
  | next => rfl
  | halt => rfl
  | interrupt vector => exact bus_raise _ vector

theorem bus_step (m : Machine World) : m.step.2.bus = m.bus := by
  cases running : m.cpu.halted with
  | true => rw [step_of_halted running]
  | false =>
      cases fetched : m.fetched with
      | prefixes p length =>
          rw [step_of_prefixes running fetched]
          exact bus_markStart m
      | undefined opcode =>
          rw [step_of_undefined running fetched]
          exact bus_markStart m
      | instruction i length =>
          rw [step_of_instruction running fetched, bus_perform]
          exact bus_markStart m

/-- Only a step that reads prefixes leaves prefixes pending, and the processor runs on. -/
theorem Settled.step (settled : m.Settled) : m.step.2.Settled := by
  refine ⟨?_, fun pending => ?_⟩
  · rw [bus_step]
    exact settled.handlers
  · cases running : m.cpu.halted with
    | true =>
        rw [step_of_halted running] at pending ⊢
        exact settled.running pending
    | false =>
        obtain ⟨p, length, step⟩ := step_of_pending running pending
        rw [step, markStart_eq]
        exact running

/-- An interrupt stops the processor only through its handler. -/
theorem Settled.raise (settled : m.Settled) (vector : Byte) : (m.raise vector).2.Settled := by
  refine ⟨?_, fun pending => ?_⟩
  · rw [bus_raise]
    exact settled.handlers
  · rw [pending_raise] at pending
    have running := settled.running pending
    cases claimed : m.bus.target? vector with
    | some handler =>
        obtain ⟨r, found, rfl⟩ := Option.map_eq_some_iff.mp claimed
        rw [raise_of_target claimed, serve_eq]
        exact settled.handlers r (List.mem_of_find?_eq_some found) vector _ _ running
    | none =>
        rw [raise_of_none claimed]
        split
        · exact running
        · exact running

theorem Settled.apply (settled : m.Settled) (q : Request World)
    (keeps : ∀ first last handler, q = .registerHandler first last handler →
      handler.KeepsRunning) : (m.apply q).Settled := by
  cases q with
  | reset => exact ⟨settled.handlers, nofun⟩
  | loadProgram program =>
      unfold Machine.apply loadProgram
      dsimp only
      split
      · exact settled
      · exact ⟨settled.handlers, nofun⟩
  | loadAt segment offset data =>
      unfold Machine.apply loadAt
      dsimp only
      cases m.cpu.memory.load (Address.translate segment offset).toNat data with
      | error fault => exact settled
      | ok memory => exact ⟨settled.handlers, settled.running⟩
  | registerHandler first last handler =>
      refine ⟨fun r among => ?_, settled.running⟩
      rcases List.mem_append.mp among with before | added
      · exact settled.handlers r before
      · rw [List.mem_singleton.mp added]
        exact keeps first last handler rfl
  | raise vector => exact settled.raise vector
  | step => exact settled.step
  | run limit => exact runFor_induction (fun _ => Settled.step) _ settled

/-! ## Starting afresh -/

/-- No prefixes are pending when a machine has been started. -/
theorem pending_apply_of_restarts {q : Request World} (restarts : q.Restarts) :
    (m.apply q).pending = none := by
  cases q with
  | reset => rfl
  | loadProgram program =>
      have fits : ¬maxProgramSize < program.length := Nat.not_lt_of_le restarts
      unfold apply loadProgram
      dsimp only
      rw [if_neg fits]
      rfl
  | _ => exact restarts.elim

/-- Pending prefixes remain what they are while the machine is left to itself. -/
theorem PendingRun.apply (run : m.PendingRun) {q : Request World} (continues : q.Continues) :
    (m.apply q).PendingRun := by
  cases q with
  | step => exact run.step
  | run limit => exact runFor_induction (fun _ => PendingRun.step) _ run
  | _ => exact continues.elim

theorem pendingRun_after (m : Machine World) {before rest : List (Request World)}
    {anchor : Request World} (restarts : anchor.Restarts) (continues : ∀ q ∈ rest, q.Continues) :
    (m.after (before ++ anchor :: rest)).PendingRun := by
  rw [after_append]
  show (((m.after before).apply anchor).after rest).PendingRun
  apply after_induction
  · intro q among m run
    exact run.apply (continues q among)
  · exact pendingRun_of_none (pending_apply_of_restarts restarts)

theorem settled_after (world : World) {requests : List (Request World)}
    (keeps : ∀ first last handler, Request.registerHandler first last handler ∈ requests →
      handler.KeepsRunning) : (after { world } requests).Settled := by
  apply after_induction
  · rintro q among m settled
    refine settled.apply q fun first last handler same => ?_
    subst same
    exact keeps first last handler among
  · exact ⟨nofun, nofun⟩

end Machine

namespace Runtime

/-- The fields are clear if no prefixes are pending. -/
theorem of_idle (m : Machine World) (idle : (of m).prefixPending = false) :
    (of m).segmentOverride = none ∧ (of m).repetition = none := by
  have none : m.pending = none := Option.not_isSome_iff_eq_none.mp (Bool.eq_false_iff.mp idle)
  rw [of_eq_clear none (of m)]
  exact ⟨rfl, rfl⟩

/-- What holds after every history of a machine that begins as after power-on. Memory has its size.
The word of the flags has only defined bits, and no use of the interface to the flags can change
that, so that masking it loses nothing and it tells the nine flags. The fields for segment and
repetition are clear unless prefixes are pending; and if no registered handler stops the processor,
prefixes are pending only while it runs. If the machine has been left to itself since it was last
reset, or started with a program that fits, then pending prefixes are the ones between the
remembered start and IP, in full portions and at least one, whose last segment and last repetition
the fields hold; and an instruction that the next step executes is decoded, from the place on where
it begins, under the prefixes that stand there and no others. -/
theorem after_history (world : World) (requests : List (Request World)) :
    let r := Runtime.after { world } requests
    let word := r.cpu.flags.pack
    let start := if r.prefixPending then r.cpu.registers.opIp else r.cpu.registers.ip
    let code : Code := fun k => r.cpu.readByte .cs (start + BitVec.ofNat 16 k)
    r = .of (Machine.after { world } requests) ∧
    r.cpu.memory.bytes.size = 0x100000 ∧
    (word &&& 0x0FD5 = word ∧ .unpack word = r.cpu.flags ∧
      (∀ f : Flags, word = f.pack ↔ r.cpu.flags = f) ∧
      ∀ changes : List FlagChange, changes.foldl FlagChange.onWord word =
        (changes.foldl FlagChange.onFlags r.cpu.flags).pack) ∧
    (r.prefixPending = false → r.segmentOverride = none ∧ r.repetition = none) ∧
    ((∀ first last handler, .registerHandler first last handler ∈ requests →
        handler.KeepsRunning) →
      ¬(r.prefixPending = true ∧ r.cpu.halted = true)) ∧
    ∀ before anchor rest, requests = before ++ anchor :: rest → anchor.Restarts →
      (∀ q ∈ rest, q.Continues) →
      (r.prefixPending = true → ∃ n bytes, 1 ≤ n ∧ bytes.length = 16 * n ∧
        r.cpu.registers.ip = r.cpu.registers.opIp + BitVec.ofNat 16 (16 * n) ∧
        code.Holds bytes ∧ (∀ b ∈ bytes, b.IsPrefix) ∧
        r.segmentOverride = (bytes.filterMap Byte.segmentPrefix?).getLast? ∧
        r.repetition = (bytes.filterMap Byte.repeatPrefix?).getLast?) ∧
      (∀ i length, r.fetched = .instruction i length → ∃ bytes rest, code.Holds bytes ∧
        (∀ b ∈ bytes, b.IsPrefix) ∧ ¬(code bytes.length).IsPrefix ∧
        (code.drop bytes.length).decode? (.ofBytes bytes) = some (i, rest) ∧
        r.cpu.registers.ip + BitVec.ofNat 16 length =
          start + BitVec.ofNat 16 (bytes.length + rest)) := by
  intro r
  have same : r = .of (Machine.after { world } requests) := of_after { world } requests
  have settled (keeps : ∀ first last handler, .registerHandler first last handler ∈ requests →
      handler.KeepsRunning) : (Machine.after { world } requests).Settled :=
    Machine.settled_after world keeps
  have run : ∀ before anchor rest, requests = before ++ anchor :: rest → anchor.Restarts →
      (∀ q ∈ rest, q.Continues) → (Machine.after { world } requests).PendingRun := by
    rintro before anchor rest rfl restarts continues
    exact Machine.pendingRun_after _ restarts continues
  clear_value r
  subst same
  generalize Machine.after { world } requests = m at settled run ⊢
  intro word start code
  refine ⟨rfl, m.cpu.memory.size_bytes, ?_, of_idle m, ?_, ?_⟩
  · exact ⟨m.cpu.flags.pack_and, Flags.unpack_pack _, fun f => Flags.pack_inj,
      fun changes => FlagChange.foldl_onWord changes _⟩
  · rintro keeps ⟨pending, halted⟩
    have running := (settled keeps).running pending
    exact Bool.false_ne_true (running.symm.trans halted)
  · intro before anchor rest split restarts continues
    have left := run before anchor rest split restarts continues
    constructor
    · intro pending
      obtain ⟨p, some⟩ := Option.isSome_iff_exists.mp pending
      obtain ⟨n, bytes, least, portions, read, effect⟩ := left p some
      have begun : start = m.cpu.registers.opIp := if_pos pending
      have ip := read.ip
      have holds : (m.codeAt start).Holds bytes := begun ▸ read.holds
      rw [portions] at ip
      refine ⟨n, bytes, least, portions, ip, holds, read.prefixes, ?_, ?_⟩
      · show m.pending.bind (·.segment) = _
        rw [some, effect]
        rfl
      · show m.pending.bind (·.repetition) = _
        rw [some, effect]
        rfl
    · intro i length fetched
      rw [of_fetched] at fetched
      exact left.own_prefixes fetched

end Runtime

namespace Machine

/-- Bytes that fit are copied. -/
theorem apply_loadAt (m : Machine World) {segment offset : Word} {data : List Byte}
    (fits : Memory.Fits (Address.translate segment offset).toNat data.length) :
    m.apply (.loadAt segment offset data) =
      { m with
        cpu.memory := m.cpu.memory.store (Address.translate segment offset) data } := by
  show ((m.loadAt segment offset data).toOption.getD m) = _
  rw [loadAt, Memory.load_toNat _ fits]
  rfl

/-- A program that is too large changes nothing. -/
theorem apply_loadProgram_of_large (m : Machine World) {program : List Byte}
    (large : maxProgramSize < program.length) : m.apply (.loadProgram program) = m := by
  show ((m.loadProgram program).toOption.getD m) = _
  unfold loadProgram
  rw [if_pos large]
  rfl

/-- A fresh machine that has read sixteen prefixes, put where execution starts, in one step. -/
def readingPrefixes : Machine Unit :=
  (booted (List.replicate 16 0x26)).afterPrefixes (List.replicate 16 0x26) 1

/-- The requests that lead there. -/
def readPrefixes : List (Request Unit) :=
  [.loadAt 0xFFFF 0 (List.replicate 16 0x26), .reset, .step]

/-- Bytes where execution starts, loaded into a fresh machine. -/
theorem apply_loadAt_start {data : List Byte} (short : data.length ≤ 16) :
    apply { world := () } (.loadAt 0xFFFF 0 data) = booted data := by
  have place : Address.translate 0xFFFF 0 = 0xFFFF0 := by decide
  have fits : Memory.Fits (Address.translate 0xFFFF 0).toNat data.length := by
    rw [place]
    exact Nat.add_le_add_left short 0xFFFF0
  rw [apply_loadAt _ fits, place]
  rfl

/-- A reset makes no difference before the first step. -/
theorem apply_reset_booted (data : List Byte) : (booted data).apply .reset = booted data := rfl

theorem after_readPrefixes : after { world := () } readPrefixes = readingPrefixes := by
  have loaded : apply { world := () } (.loadAt 0xFFFF 0 (List.replicate 16 0x26)) =
      booted (List.replicate 16 0x26) := apply_loadAt_start (Nat.le_refl 16)
  have step := step_of_first_portion (m := booted (List.replicate 16 0x26)) rfl rfl
    (code_booted (by decide)) (by decide) (by decide)
  unfold after readPrefixes
  rw [List.foldl_cons, loaded, List.foldl_cons, apply_reset_booted, List.foldl_cons,
    List.foldl_nil, apply, step]
  rfl

theorem pending_readingPrefixes : readingPrefixes.pending.isSome = true := rfl

/-- The requests put bytes in place, start the machine, and then leave it to itself. -/
theorem readPrefixes_eq :
    readPrefixes = [.loadAt 0xFFFF 0 (List.replicate 16 0x26)] ++ .reset :: [.step] := rfl

theorem keepsRunning_of_mem_readPrefixes (first last : Byte) (handler : Handler Unit)
    (among : .registerHandler first last handler ∈ readPrefixes) : handler.KeepsRunning := by
  rw [readPrefixes_eq] at among
  simp only [List.mem_append, List.mem_cons, List.not_mem_nil, reduceCtorEq, or_false] at among

end Machine

namespace Runtime

open Machine

/-- A history that ends in the middle of a run of prefixes. -/
theorem after_history_of_readPrefixes :
    let r := Runtime.after { world := () } readPrefixes
    r.prefixPending = true ∧ r.cpu.halted = false ∧
      ∃ n, 1 ≤ n ∧ r.cpu.registers.ip = r.cpu.registers.opIp + BitVec.ofNat 16 (16 * n) := by
  obtain ⟨same, -, -, -, settled, left⟩ := after_history () readPrefixes
  rw [after_readPrefixes] at same
  generalize Runtime.after { world := () } readPrefixes = r at same settled left ⊢
  have pending : r.prefixPending = true := by
    rw [same]
    exact pending_readingPrefixes
  have continues : ∀ q ∈ [(Request.step : Request Unit)], q.Continues := by
    intro q among
    rw [List.mem_singleton.mp among]
    trivial
  obtain ⟨own, -⟩ := left _ _ _ readPrefixes_eq trivial continues
  obtain ⟨n, -, least, -, ip, -⟩ := own pending
  refine ⟨pending, ?_, n, least, ip⟩
  refine Bool.eq_false_iff.mpr fun halted => ?_
  exact settled keepsRunning_of_mem_readPrefixes ⟨pending, halted⟩

end Runtime

/-- A handler that stops the processor. -/
def Handler.halting : Handler Unit where
  name := "halting"
  serve _ c world := ⟨.ok .done, { c with halted := true }, world⟩

namespace Machine

/-- A single byte always fits. -/
theorem apply_loadAt_byte (m : Machine World) (segment offset : Word) (b : Byte) :
    m.apply (.loadAt segment offset [b]) =
      { m with cpu.memory := m.cpu.memory.set (Address.translate segment offset) b } := by
  have fits : Memory.Fits (Address.translate segment offset).toNat [b].length :=
    (Address.translate segment offset).isLt
  rw [apply_loadAt m fits]
  rfl

/-- Raising an interrupt enters the handler that its vector is mapped to. -/
theorem apply_raise_halting {m : Machine Unit} {vector : Byte}
    (claimed : m.bus.target? vector = some Handler.halting) :
    m.apply (.raise vector) = { m with cpu.halted := true } := by
  rw [apply, raise_of_target claimed, serve_eq]
  rfl

end Machine

/-- A program that does not fit leaves the machine in the middle of a run of prefixes, with other
bytes in front of IP if the host has put them there. And a handler may stop the processor there, if
the host raises its interrupt. -/
theorem Runtime.after_readPrefixes_disturbed :
    let failed := Runtime.after { world := () } (Machine.readPrefixes ++
      [.loadAt 0xFFFF 0 [0x90], .loadProgram (List.replicate 0xFEFF 0x90)])
    let stopped := Runtime.after { world := () } (Machine.readPrefixes ++
      [.registerHandler 0x40 0x40 .halting, .raise 0x40])
    failed.prefixPending = true ∧
      ¬(failed.cpu.readByte .cs failed.cpu.registers.opIp).IsPrefix ∧
      stopped.prefixPending = true ∧ stopped.cpu.halted = true := by
  intro failed stopped
  have pending := Machine.pending_readingPrefixes
  have bus : Machine.readingPrefixes.bus = .empty := rfl
  have place : Address.translate Machine.readingPrefixes.cpu.registers.cs
      Machine.readingPrefixes.cpu.registers.opIp = Address.translate 0xFFFF 0 := rfl
  have large : maxProgramSize < (List.replicate 0xFEFF (0x90 : Byte)).length := by
    rw [List.length_replicate]
    decide
  have failing : failed = .of (Machine.readingPrefixes.apply (.loadAt 0xFFFF 0 [0x90])) := by
    show Runtime.after (.of { world := () }) _ = _
    rw [Runtime.of_after, Machine.after_append, Machine.after_readPrefixes]
    rw [Machine.after, List.foldl_cons, List.foldl_cons, List.foldl_nil,
      Machine.apply_loadProgram_of_large _ large]
  have stopping : stopped = .of ((Machine.readingPrefixes.apply
      (.registerHandler 0x40 0x40 .halting)).apply (.raise 0x40)) := by
    show Runtime.after (.of { world := () }) _ = _
    rw [Runtime.of_after, Machine.after_append, Machine.after_readPrefixes]
    rfl
  generalize Machine.readingPrefixes = m at pending bus place failing stopping
  rw [Machine.apply_loadAt_byte] at failing
  have claimed : (m.apply (.registerHandler 0x40 0x40 .halting)).bus.target? 0x40 =
      some Handler.halting := by
    show (m.bus.register _).target? 0x40 = _
    rw [bus]
    rfl
  rw [Machine.apply_raise_halting claimed] at stopping
  rw [failing, stopping]
  refine ⟨pending, ?_, pending, rfl⟩
  show ¬Byte.IsPrefix ((m.cpu.memory.set (Address.translate 0xFFFF 0) 0x90).get
    (Address.translate m.cpu.registers.cs m.cpu.registers.opIp))
  rw [place, Memory.get_set_self]
  decide

end I8086
