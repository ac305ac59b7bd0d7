import I8086.Proofs.Stack
import I8086.Proofs.Step

/-!
# Who serves an interrupt

Handlers are registered for ranges of vectors, and ranges may overlap or be empty. `Earliest` says
which registration a vector belongs to. An interrupt is delivered to that handler; if there is none,
to the routine that the vector table names, found there before anything is pushed; and if the entry
is empty, to nobody. `raise_registered` states the three cases for every history of registrations.
-/

namespace I8086

variable {α : Type}

/-- The vector lies between the ends of the range, both included. -/
def Registration.Contains (r : Registration α) (vector : Byte) : Prop :=
  r.first.toNat ≤ vector.toNat ∧ vector.toNat ≤ r.last.toNat

theorem Registration.claims_iff (r : Registration α) (vector : Byte) :
    r.claims vector = true ↔ r.Contains vector := by
  simp only [claims, Contains, Bool.and_eq_true, decide_eq_true_eq, BitVec.le_def]

/-- No range that was registered before this one contains the vector, but this one does. -/
def Earliest (rs : List (Registration α)) (vector : Byte) (r : Registration α) : Prop :=
  ∃ before after, rs = before ++ r :: after ∧ r.Contains vector ∧
    ∀ q ∈ before, ¬q.Contains vector

namespace Bus

variable {b : Bus α} {vector : Byte}

/-- A vector belongs to the earliest registration that contains it. -/
theorem target?_eq_some_iff {target : α} :
    b.target? vector = some target ↔
      ∃ r, Earliest b.registrations vector r ∧ r.target = target := by
  simp only [target?, Option.map_eq_some_iff, List.find?_eq_some_iff_append, Earliest,
    ← Registration.claims_iff, Bool.not_eq_true']
  constructor
  · rintro ⟨r, ⟨claims, before, after, split, none⟩, same⟩
    exact ⟨r, ⟨before, after, split, claims, fun q hq => by simp [none q hq]⟩, same⟩
  · rintro ⟨r, ⟨before, after, split, claims, none⟩, same⟩
    exact ⟨r, ⟨claims, before, after, split, fun q hq => by simpa using none q hq⟩, same⟩

theorem target?_eq_none_iff :
    b.target? vector = none ↔ ∀ r ∈ b.registrations, ¬r.Contains vector := by
  simp only [target?, Option.map_eq_none_iff, List.find?_eq_none, ← Registration.claims_iff]

theorem claimed_iff : b.claimed vector = true ↔ ∃ r ∈ b.registrations, r.Contains vector := by
  simp only [claimed, List.any_eq_true, Registration.claims_iff]

/-- The vectors that are mapped are those for which a handler is found. -/
theorem claimed_eq_isSome (b : Bus α) (vector : Byte) :
    b.claimed vector = (b.target? vector).isSome := by
  simp only [claimed, target?, Option.isSome_map, List.isSome_find?]

/-- A new registration leaves the vectors alone that are mapped already. -/
theorem target?_append (b : Bus α) (later : List (Registration α))
    (claimed : b.claimed vector = true) :
    Bus.target? ⟨b.registrations ++ later⟩ vector = b.target? vector := by
  rw [claimed_eq_isSome] at claimed
  simp only [target?, List.find?_append, Option.isSome_map] at claimed ⊢
  rw [Option.or_of_isSome claimed]

end Bus

namespace Machine

variable {World : Type}

/-- Registers handlers one after the other. -/
def registerAll (m : Machine World) (rs : List (Registration (Handler World))) : Machine World :=
  rs.foldl (fun m r => m.registerHandler r.first r.last r.target) m

/-- Registering handlers changes nothing but the bus, to whose end they are added. -/
theorem registerAll_eq (m : Machine World) (rs : List (Registration (Handler World))) :
    m.registerAll rs = { m with bus := ⟨m.bus.registrations ++ rs⟩ } := by
  induction rs generalizing m with
  | nil =>
      rw [List.append_nil]
      rfl
  | cons r rs ih =>
      have added : (m.registerHandler r.first r.last r.target).bus.registrations =
          m.bus.registrations ++ [r] := rfl
      rw [registerAll, List.foldl_cons, ← registerAll, ih, added, List.append_assoc,
        List.singleton_append]
      rfl

/-- What entering an interrupt's routine at `cs:ip` makes of the processor: the flags, CS and IP lie
below where the top of the stack was, IF and TF are cleared, and all else is as before. -/
structure RoutineEntered (c : Cpu) (cs ip : Word) (c' : Cpu) : Prop where
  registers : c'.registers = { c.registers with sp := c.registers.sp - 6, cs := cs, ip := ip }
  flags : c'.flags = { c.flags with interrupt := false, trap := false }
  halted : c'.halted = c.halted
  savedFlags : c'.readWord .ss (c.registers.sp - 2) = c.flags.pack ||| 0xF002
  savedCs : c'.readWord .ss (c.registers.sp - 4) = c.registers.cs
  savedIp : c'.readWord .ss (c.registers.sp - 6) = c.registers.ip
  memory : ∀ a, ¬c.UnderTop 6 a → c'.memory.get a = c.memory.get a

theorem routineEntered_enter (c : Cpu) (cs ip : Word) :
    RoutineEntered c cs ip (c.enter .interrupt cs ip) where
  registers := c.registers_enter .interrupt cs ip
  flags := c.flags_enter .interrupt cs ip
  halted := c.halted_enter .interrupt cs ip
  savedFlags := Cpu.readWord_enter .interrupt (show 0 < 3 by decide)
  savedCs := Cpu.readWord_enter .interrupt (show 1 < 3 by decide)
  savedIp := Cpu.readWord_enter .interrupt (show 2 < 3 by decide)
  memory _ := Cpu.get_enter .interrupt

/-- What an interrupt that a handler has served makes of the machine: the answer alone decides about
result, processor and world. -/
theorem raise_of_reply {m : Machine World} {vector : Byte} {handler : Handler World}
    (claimed : m.bus.target? vector = some handler) :
    m.raise vector =
      ((match (handler.serve vector m.cpu m.world).service with
        | .ok .done => .ok .next
        | .ok (.unimplemented function) => .ok (.unhandled vector (some function))
        | .ok (.terminate code) => .ok (.exited code)
        | .error fault => .error fault),
        { m with
          cpu := (handler.serve vector m.cpu m.world).cpu
          world := (handler.serve vector m.cpu m.world).world }) := by
  rw [raise_of_target claimed, serve_eq]
  rcases (handler.serve vector m.cpu m.world).service with _ | _ | _ | _ <;> rfl

/-- An interrupt does exactly one of three things, whatever handlers have been registered and
whatever state the machine is in. If some registered range contains the vector, the handler of the
earliest such registration is called, and its answer alone decides about result, processor and
world. Otherwise, if the vector table has an entry, its routine is entered, at the place that the
table named before anything was pushed. Otherwise nothing happens, and the interrupt is reported.
The vectors that have a handler are those that a registered range contains, and they keep it. -/
theorem raise_registered (m : Machine World) (rs : List (Registration (Handler World)))
    (vector : Byte) :
    let m := { m with bus := .empty }.registerAll rs
    ∃ cs ip, m.cpu.memory.readWord (vector.toNat * 4) = .ok ip ∧
      m.cpu.memory.readWord (vector.toNat * 4 + 2) = .ok cs ∧
      ((∃ r, Earliest rs vector r ∧
          let reply := r.target.serve vector m.cpu m.world
          m.raise vector =
            ((match reply.service with
              | .ok .done => .ok .next
              | .ok (.unimplemented function) => .ok (.unhandled vector (some function))
              | .ok (.terminate code) => .ok (.exited code)
              | .error fault => .error fault),
              { m with cpu := reply.cpu, world := reply.world })) ∨
        ((∀ r ∈ rs, ¬r.Contains vector) ∧ ¬(cs = 0 ∧ ip = 0) ∧
          ∃ cpu, m.raise vector = (.ok .next, { m with cpu }) ∧ RoutineEntered m.cpu cs ip cpu) ∨
        ((∀ r ∈ rs, ¬r.Contains vector) ∧ (cs = 0 ∧ ip = 0) ∧
          m.raise vector = (.ok (.unhandled vector none), m))) ∧
      (m.bus.claimed vector = true ↔ ∃ r ∈ rs, r.Contains vector) ∧
      m.bus.claimed vector = (m.bus.target? vector).isSome ∧
      ∀ later, m.bus.claimed vector = true →
        (m.registerAll later).bus.target? vector = m.bus.target? vector := by
  intro m
  have registered : m.bus.registrations = rs := by
    simp only [m, registerAll_eq, Bus.empty, List.nil_append]
  obtain ⟨offset, segment⟩ := m.cpu.readWord_vectorTable vector
  refine ⟨_, _, offset, segment, ?_, registered ▸ Bus.claimed_iff,
    m.bus.claimed_eq_isSome vector, fun later claimed => ?_⟩
  · cases found : m.bus.target? vector with
    | some handler =>
        obtain ⟨r, earliest, rfl⟩ := Bus.target?_eq_some_iff.mp found
        exact .inl ⟨r, registered ▸ earliest, raise_of_reply found⟩
    | none =>
        have free : ∀ r ∈ rs, ¬r.Contains vector := registered ▸ Bus.target?_eq_none_iff.mp found
        rw [raise_of_none found]
        split
        case isTrue empty => exact .inr (.inr ⟨free, empty, rfl⟩)
        case isFalse entry =>
            exact .inr (.inl ⟨free, entry, _, rfl, routineEntered_enter _ _ _⟩)
  · rw [registerAll_eq]
    exact m.bus.target?_append later claimed

end Machine

end I8086
