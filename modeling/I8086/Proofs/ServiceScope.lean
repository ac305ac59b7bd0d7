import I8086.Proofs.ServiceOrder

/-!
# What services may change

`scope` lists, by the number in AH, which registers and flags a service may change, whether it sets
a vector, and what it writes to the console; `Function.scope` is the same list by names.
`Scope.Admits` says what a reply may be inside a scope, whatever the console does, and every
function gives such a reply (`admits_perform`). Numbers without a service have an empty scope: such
a call, and one that ends the program, changes nothing at all.

What a console does with bytes is its own affair. `Writing.tried` says what it is asked for; if its
output can be looked at, it has grown by a first part of the bytes (`shows_tried`).
-/

namespace I8086.Dos

/-! ## Scopes -/

/-- What a service writes to the console. -/
inductive Writing where
  | nothing
  /-- The key that it reads. -/
  | key
  /-- The byte in DL. -/
  | character
  /-- The text at `DS:DX`. -/
  | text
  /-- The bytes at `DS:DX` whose number is in CX, if the handle is open. -/
  | block
deriving DecidableEq

/-- The bytes that are written if the console takes them all. -/
def Writing.bytes {C : Type} [Console C] (c : Cpu) (t : Terminal C) : Writing → List Byte
  | nothing => []
  | key => t.readKey.1.toOption.toList
  | character => [c.registers.low .dx]
  | text => (dataBytes c c.registers.dx 0x10000).takeWhile (· ≠ textEnd)
  | block =>
    if c.registers.bx = 1 ∨ c.registers.bx = 2 then
      dataBytes c c.registers.dx c.registers.cx.toNat
    else []

/-- What becomes of a terminal that is asked to write so. -/
def Writing.tried {C : Type} [Console C] (c : Cpu) (t : Terminal C) :
    Writing → Console.Outcome (Terminal C) Unit
  | nothing => (.ok (), t)
  | key =>
    match t.readKey with
    | (.ok k, t) => t.writeByte k
    | (.error reason, t) => (.error reason, t)
  | character => t.writeByte (c.registers.low .dx)
  | text => t.write ((dataBytes c c.registers.dx 0x10000).takeWhile (· ≠ textEnd))
  | block =>
    if c.registers.bx = 1 ∨ c.registers.bx = 2 then
      t.write (dataBytes c c.registers.dx c.registers.cx.toNat)
    else (.ok (), t)

/-- What a service may change. -/
structure Scope where
  registers : List Register := []
  /-- AL may change, AH may not. -/
  al : Bool := false
  flags : List Flag := []
  /-- The entry of the vector table that AL names. -/
  vector : Bool := false
  writing : Writing := .nothing
deriving DecidableEq

/-- The scope of the number in AH. Function 06h reads if DL is FF and writes otherwise. -/
def scope (ah : Byte) (input : Bool) : Scope :=
  if ah = 0x01 then { al := true, writing := .key }
  else if ah = 0x02 ∨ ah = 0x06 ∧ ¬input then { al := true, writing := .character }
  else if ah = 0x06 then { al := true, flags := [.zero] }
  else if ah = 0x07 ∨ ah = 0x08 ∨ ah = 0x0B then { al := true }
  else if ah = 0x09 then { al := true, writing := .text }
  else if ah = 0x25 then { vector := true }
  else if ah = 0x30 then { registers := [.ax, .bx, .cx] }
  else if ah = 0x35 then { registers := [.es, .bx] }
  else if ah = 0x40 then { registers := [.ax], flags := [.carry], writing := .block }
  else {}

/-- The scope of the function with a name. -/
def Function.scope (input : Bool) : Function → Scope
  | characterInput => { al := true, writing := .key }
  | characterOutput => { al := true, writing := .character }
  | directConsoleIo =>
    if input then { al := true, flags := [.zero] } else { al := true, writing := .character }
  | directConsoleInput | consoleInputNoEcho | inputStatus => { al := true }
  | displayString => { al := true, writing := .text }
  | setVector => { vector := true }
  | getVersion => { registers := [.ax, .bx, .cx] }
  | getVector => { registers := [.es, .bx] }
  | writeFile => { registers := [.ax], flags := [.carry], writing := .block }
  | _ => {}

/-- The numbers of the services that are provided. -/
def provided : List Byte :=
  [0x00, 0x01, 0x02, 0x06, 0x07, 0x08, 0x09, 0x0B, 0x25, 0x30, 0x35, 0x40, 0x4C]

/-- Whether a function is provided. -/
def Function.isProvided : Function → Bool
  | programTerminate | characterInput | characterOutput | directConsoleIo | directConsoleInput
  | consoleInputNoEcho | displayString | inputStatus | setVector | getVersion | getVector
  | writeFile | terminate => true
  | _ => false

/-- The lists by numbers and the lists by names say the same. -/
theorem lists_agree (ah : Byte) (input : Bool) :
    (scope ah input =
      match Function.ofNumber? ah.toNat with
      | some f => f.scope input
      | none => {}) ∧
    decide (ah ∈ provided) = (Function.ofNumber? ah.toNat).any Function.isProvided := by
  revert ah input
  decide +kernel

/-- No scope has more than these registers and flags. -/
theorem Function.scope_subset (input : Bool) (f : Function) :
    (f.scope input).registers ⊆ [.ax, .bx, .cx, .es] ∧ (f.scope input).flags ⊆ [.zero, .carry] := by
  cases f <;> cases input <;> decide

/-! ## Processors within a scope -/

namespace Scope

/-- One processor comes from another by changes inside the scope. -/
structure Allows (s : Scope) (c c' : Cpu) : Prop where
  register : ∀ name ∉ s.registers, (name = .ax → s.al = false) →
    c'.registers.get name = c.registers.get name
  high : .ax ∉ s.registers → c'.registers.high .ax = c.registers.high .ax
  opIp : c'.registers.opIp = c.registers.opIp
  flag : ∀ flag ∉ s.flags, c'.flags.get flag = c.flags.get flag
  memory : ∀ a : Address,
    ¬(s.vector ∧ 4 * (c.registers.low .ax).toNat ≤ a.toNat ∧
      a.toNat < 4 * (c.registers.low .ax).toNat + 4) →
    c'.memory.get a = c.memory.get a
  halted : c'.halted = c.halted

namespace Allows

variable {s : Scope} {c c' : Cpu}

theorem refl (s : Scope) (c : Cpu) : s.Allows c c where
  register _ _ _ := rfl
  high _ := rfl
  opIp := rfl
  flag _ _ := rfl
  memory _ _ := rfl
  halted := rfl

theorem setRegister (kept : s.Allows c c') (name : Register) (listed : name ∈ s.registers)
    (v : Word) : s.Allows c (c'.setRegister name v) where
  register other free whole := by
    have different : other ≠ name := by
      rintro rfl
      exact free listed
    exact (Registers.get_set_ne _ v different).trans (kept.register other free whole)
  high free := by
    have different : Register.ax ≠ name := by
      rintro rfl
      exact free listed
    exact (congrArg Word.high (Registers.get_set_ne _ v different)).trans (kept.high free)
  opIp := (Registers.opIp_set _ name v).trans kept.opIp
  flag := kept.flag
  memory := kept.memory
  halted := kept.halted

theorem setLow (kept : s.Allows c c') (low : s.al = true) (v : Byte) :
    s.Allows c (c'.setLow .ax v) where
  register other free whole := by
    have different : other ≠ .ax := by
      intro same
      rw [whole same] at low
      cases low
    exact (Registers.get_set_ne _ _ different).trans (kept.register other free whole)
  high free := (Registers.high_setLow _ .ax v).trans (kept.high free)
  opIp := (Registers.opIp_set _ .ax _).trans kept.opIp
  flag := kept.flag
  memory := kept.memory
  halted := kept.halted

theorem setFlag (kept : s.Allows c c') (flag : Flag) (listed : flag ∈ s.flags) (v : Bool) :
    s.Allows c (c'.setFlag flag v) where
  register := kept.register
  high := kept.high
  opIp := kept.opIp
  flag other free := by
    have different : other ≠ flag := by
      rintro rfl
      exact free listed
    exact (Flags.get_set_ne _ v different).trans (kept.flag other free)
  memory := kept.memory
  halted := kept.halted

theorem setVector (vector : s.vector = true) (c : Cpu) : s.Allows c (Dos.setVector c) where
  register _ _ _ := rfl
  high _ := rfl
  opIp := rfl
  flag _ _ := rfl
  memory _ outside := c.get_writeVector _ _ _ fun inside => outside ⟨vector, inside⟩
  halted := rfl

end Allows

end Scope

/-! ## What the console shows -/

section

variable {C : Type} [Console C] [Console.Recording C]

namespace Terminal

/-- Reading a key shows nothing. -/
theorem output_readKey (t : Terminal C) : t.readKey.2.output = t.output := by
  obtain ⟨console, lookahead⟩ := t
  cases lookahead with
  | none => exact Console.Recording.output_readKey console
  | some k => rfl

theorem shows_writeByte (t : Terminal C) (b : Byte) :
    Console.Shows output t [b] (t.writeByte b) :=
  Console.Recording.shows_writeByte t.console b

theorem shows_write (t : Terminal C) (bytes : List Byte) :
    Console.Shows output t bytes (t.write bytes) :=
  Console.Recording.shows_writeBytes t.console bytes

end Terminal

/-- A console that is not asked to write shows what it has shown before. -/
theorem output_of_silent {t t' : Terminal C}
    (silent : t'.console ∈
      [t.console, (Console.readKey t.console).2, (Console.pollKey t.console).2]) :
    t'.output = t.output := by
  simp only [List.mem_cons, List.not_mem_nil, or_false] at silent
  rcases silent with same | same | same
  · exact congrArg Console.Recording.output same
  · exact (congrArg _ same).trans (Console.Recording.output_readKey t.console)
  · exact (congrArg _ same).trans (Console.Recording.output_pollKey t.console)

/-- What a terminal is asked to write it shows, or a first part of it if it fails. -/
theorem shows_tried (c : Cpu) (t : Terminal C) (w : Writing) :
    Console.Shows Terminal.output t (w.bytes c t) (w.tried c t) := by
  have nothing : Console.Shows Terminal.output t [] (.ok (), t) :=
    ⟨[], List.prefix_rfl, (List.append_nil _).symm, fun _ => rfl⟩
  cases w with
  | nothing => exact nothing
  | key =>
      have silent := t.output_readKey
      rw [Writing.bytes, Writing.tried]
      rcases read : t.readKey with ⟨reason | k, t'⟩ <;> rw [read] at silent
      · exact ⟨[], List.nil_prefix, silent.trans (List.append_nil _).symm, nofun⟩
      · have shown := t'.shows_writeByte k
        unfold Console.Shows at shown
        rwa [show t'.output = t.output from silent] at shown
  | character => exact t.shows_writeByte _
  | text => exact t.shows_write _
  | block =>
      rw [Writing.bytes, Writing.tried]
      split
      · exact t.shows_write _
      · exact nothing

end

/-! ## Replies within a scope -/

theorem map_unit {C : Type} (asked : Console.Outcome C Unit) :
    (asked.1.map fun _ => (), asked.2) = asked := by
  rcases asked with ⟨_ | _, _⟩ <;> rfl

section

variable {C : Type} [Console C]

/-- What a call does inside a scope, whatever the console does. The processor changes as the scope
allows; not at all if the call fails, which is for the sake of the console only. The console is
asked for the bytes that are to be written; if there are none, it is at most asked for a key. -/
structure Scope.Admits (s : Scope) (c : Cpu) (t : Terminal C) (reply : Reply (Terminal C)) :
    Prop where
  allows : s.Allows c reply.cpu
  failed : ∀ fault, reply.service = .error fault → reply.cpu = c ∧ ∃ reason, fault = .io reason
  silent : s.writing = .nothing → reply.world.console ∈
    [t.console, (Console.readKey t.console).2, (Console.pollKey t.console).2]
  asks : s.writing ≠ .nothing → reply.world = (s.writing.tried c t).2 ∧
    ∀ service, reply.service = .ok service → (s.writing.tried c t).1 = .ok ()

/-- The output of the console has grown by a first part of the bytes that are to be written, and by
all of them if the call succeeds. -/
def Scope.Shows [Console.Recording C] (s : Scope) (c : Cpu) (t : Terminal C)
    (reply : Reply (Terminal C)) : Prop :=
  ∃ sent, sent <+: s.writing.bytes c t ∧ reply.world.output = t.output ++ sent ∧
    ∀ service, reply.service = .ok service → sent = s.writing.bytes c t

namespace Scope.Admits

variable {s : Scope} {c c' : Cpu} {t t' : Terminal C}

/-- What the console is asked for it shows. -/
theorem shows [Console.Recording C] {reply : Reply (Terminal C)} (admits : s.Admits c t reply) :
    s.Shows c t reply := by
  by_cases nothing : s.writing = .nothing
  · have same := output_of_silent (admits.silent nothing)
    rw [Scope.Shows, nothing]
    exact ⟨[], List.prefix_rfl, same.trans (List.append_nil _).symm, fun _ _ => rfl⟩
  · obtain ⟨world, complete⟩ := admits.asks nothing
    obtain ⟨sent, part, shown, all⟩ := shows_tried c t s.writing
    rw [← world] at shown
    exact ⟨sent, part, shown, fun service done => all (complete service done)⟩

/-- A call that has asked for keys at most. -/
theorem answered {service : Service} (kept : s.Allows c c') (nothing : s.writing = .nothing)
    (silent : t'.console ∈
      [t.console, (Console.readKey t.console).2, (Console.pollKey t.console).2]) :
    s.Admits c t ⟨.ok service, c', t'⟩ where
  allows := kept
  failed _ := nofun
  silent _ := silent
  asks writes := absurd nothing writes

/-- A call that has asked for a key in vain. -/
theorem refused {reason : String} (nothing : s.writing = .nothing)
    (silent : t'.console ∈
      [t.console, (Console.readKey t.console).2, (Console.pollKey t.console).2]) :
    s.Admits c t ⟨.error (.io reason), c, t'⟩ where
  allows := .refl s c
  failed _ same := ⟨rfl, reason, (Except.error.inj same).symm⟩
  silent _ := silent
  asks writes := absurd nothing writes

/-- A call that needs no console. -/
theorem done {service : Service} (kept : s.Allows c c') (nothing : s.writing = .nothing) :
    s.Admits c t ⟨.ok service, c', t⟩ := .answered kept nothing (.head _)

/-- A call that asks for a key. -/
theorem ask {α : Type} {asked : Console.Outcome (Terminal C) α} {after : α → Cpu}
    (kept : ∀ a, s.Allows c (after a)) (nothing : s.writing = .nothing)
    (silent : asked.2.console ∈
      [t.console, (Console.readKey t.console).2, (Console.pollKey t.console).2]) :
    s.Admits c t (Terminal.reply asked c after) := by
  rcases asked with ⟨reason | a, t'⟩
  · exact .refused nothing silent
  · exact .answered (kept a) nothing silent

/-- A call that writes. -/
theorem write {α : Type} {asked : Console.Outcome (Terminal C) α} {after : α → Cpu}
    (kept : ∀ a, s.Allows c (after a)) (writes : s.writing ≠ .nothing)
    (same : s.writing.tried c t = (asked.1.map fun _ => (), asked.2)) :
    s.Admits c t (Terminal.reply asked c after) := by
  rcases asked with ⟨reason | a, t'⟩
  · exact
      { allows := .refl s c
        failed := fun _ same => ⟨rfl, reason, (Except.error.inj same).symm⟩
        silent := fun nothing => absurd nothing writes
        asks := fun _ => ⟨congrArg Prod.snd same.symm, nofun⟩ }
  · exact
      { allows := kept a
        failed := fun _ => nofun
        silent := fun nothing => absurd nothing writes
        asks := fun _ => ⟨congrArg Prod.snd same.symm, fun _ _ => congrArg Prod.fst same⟩ }

end Scope.Admits

end

/-! ## Every function stays in its scope -/

variable {C : Type} [Console C]

section

variable (config : Config) (f : Function) (c : Cpu) (t : Terminal C)

/-- A key that has been read is what is to be written. -/
theorem tried_key :
    Writing.key.tried c t = ((echoKey t).1.map fun _ => (), (echoKey t).2) := by
  rw [Writing.tried, echoKey]
  rcases t.readKey with ⟨_ | k, t'⟩
  · rfl
  · dsimp only
    rcases t'.writeByte k with ⟨_ | _, _⟩ <;> rfl

/-- To read a key the console is asked for one at most. -/
theorem silent_readKey : t.readKey.2.console ∈
    [t.console, (Console.readKey t.console).2, (Console.pollKey t.console).2] := by
  obtain ⟨console, _ | k⟩ := t
  · exact .tail _ (.head _)
  · exact .head _

theorem silent_pollKey : t.pollKey.2.console ∈
    [t.console, (Console.readKey t.console).2, (Console.pollKey t.console).2] := by
  obtain ⟨console, _ | k⟩ := t
  · rw [Terminal.pollKey]
    rcases Console.pollKey console with ⟨_ | _, console'⟩ <;>
      simp only [List.mem_cons, true_or, or_true]
  · exact .head _

theorem admits_perform :
    (f.scope (c.registers.low .dx = 0xFF)).Admits c t (perform config f c t) := by
  have kept (s : Scope) : s.Allows c c := .refl s c
  have key : Writing.key ≠ .nothing := by decide
  have character : Writing.character ≠ .nothing := by decide
  have text : Writing.text ≠ .nothing := by decide
  have block : Writing.block ≠ .nothing := by decide
  cases f with
  | characterInput => exact .write (fun _ => (kept _).setLow rfl _) key (tried_key c t)
  | characterOutput =>
      exact .write (fun _ => (kept _).setLow rfl _) character (map_unit _).symm
  | directConsoleIo =>
      rw [perform, Function.scope]
      by_cases input : c.registers.low .dx = 0xFF
      · have silent := silent_pollKey t
        rw [if_pos input, if_pos (decide_eq_true input), directInput]
        rcases polled : t.pollKey with ⟨reason | key, _⟩ <;> rw [polled] at silent
        · exact .refused rfl silent
        · exact .answered (((kept _).setLow rfl _).setFlag .zero (.head _) _) rfl silent
      · rw [if_neg input, if_neg (by simpa using input)]
        exact .write (fun _ => (kept _).setLow rfl _) character (map_unit _).symm
  | directConsoleInput | consoleInputNoEcho =>
      exact .ask (fun _ => (kept _).setLow rfl _) rfl (silent_readKey t)
  | displayString =>
      rw [perform, text_eq_takeWhile]
      exact .write (fun _ => (kept _).setLow rfl _) text (map_unit _).symm
  | inputStatus => exact .ask (fun _ => (kept _).setLow rfl _) rfl (silent_pollKey t)
  | setVector => exact .done (.setVector rfl c) rfl
  | getVersion =>
      have ax := (kept { registers := [.ax, .bx, .cx] }).setRegister .ax (.head _)
        (Word.ofBytes config.major config.minor)
      have bx := ax.setRegister .bx (.tail _ (.head _)) (Word.ofBytes 0 config.oem.number)
      exact .done (bx.setRegister .cx (.tail _ (.tail _ (.head _))) 0) rfl
  | getVector =>
      have es := (kept { registers := [.es, .bx] }).setRegister .es (.head _)
        (c.readVector (c.registers.low .ax)).1
      have bx := es.setRegister .bx (.tail _ (.head _)) (c.readVector (c.registers.low .ax)).2
      exact .done bx rfl
  | writeFile =>
      have ax (v : Word) :=
        (kept { registers := [.ax], flags := [.carry], writing := .block }).setRegister .ax
          (.head _) v
      rw [perform, writeHandle]
      by_cases opened : c.registers.bx = 1 ∨ c.registers.bx = 2
      · rw [if_pos opened]
        exact .write (fun _ => (ax _).setFlag .carry (.head _) _) block
          ((if_pos opened).trans (map_unit _).symm)
      · rw [if_neg opened]
        have untried : Writing.block.tried c t = (.ok (), t) := if_neg opened
        change Scope.Admits _ c t (Terminal.reply (.ok (), t) c fun () => _)
        exact .write (fun _ => (ax _).setFlag .carry (.head _) _) block untried
  | _ => exact .done (kept _) rfl

/-- A function that is not provided is refused without any effect. -/
theorem perform_of_not_provided (missing : f.isProvided = false) :
    perform config f c t = ⟨.ok (.unimplemented (c.registers.high .ax)), c, t⟩ := by
  cases f <;> first | rfl | cases missing

end

/-! ## Every call stays in its scope -/

/-- The function that a call asks for. Interrupts other than 21h have none. -/
def function? (vector : Byte) (c : Cpu) : Option Function :=
  if vector = serviceVector then Function.ofNumber? (c.registers.high .ax).toNat else none

/-- The scope of a call. -/
def callScope (vector : Byte) (c : Cpu) : Scope :=
  if vector = serviceVector then scope (c.registers.high .ax) (c.registers.low .dx = 0xFF) else {}

variable (config : Config) (vector : Byte) (c : Cpu) (t : Terminal C)

theorem serve_eq_perform :
    serve config vector c t =
      match function? vector c with
      | some f => perform config f c t
      | none =>
        ⟨.ok (if vector = terminateVector then .terminate 0
          else .unimplemented (c.registers.high .ax)), c, t⟩ := by
  rw [serve, function?]
  by_cases ends : vector = terminateVector
  · subst ends
    rfl
  · by_cases numbered : vector = serviceVector
    · subst numbered
      rfl
    · rw [if_neg ends, if_neg numbered, if_neg numbered]
      simp only [if_neg ends]

theorem callScope_eq :
    callScope vector c =
      match function? vector c with
      | some f => f.scope (c.registers.low .dx = 0xFF)
      | none => {} := by
  rw [callScope, function?]
  split
  · exact (lists_agree _ _).1
  · rfl

theorem admits_serve : (callScope vector c).Admits c t (serve config vector c t) := by
  rw [callScope_eq, serve_eq_perform]
  cases function? vector c with
  | none => exact .done (.refl _ c) rfl
  | some f => exact admits_perform config f c t

/-- A number that is not provided is reported, and nothing else happens. -/
theorem serve_of_not_provided (goesOn : vector ≠ terminateVector)
    (missing : vector = serviceVector → c.registers.high .ax ∉ provided) :
    serve config vector c t = ⟨.ok (.unimplemented (c.registers.high .ax)), c, t⟩ := by
  rw [serve, if_neg goesOn]
  split
  · rename_i numbered
    cases number : Function.ofNumber? (c.registers.high .ax).toNat with
    | none => rfl
    | some f =>
        have absent : f.isProvided = false := by
          have listed := (lists_agree (c.registers.high .ax) false).2
          rw [decide_eq_false (missing numbered), number] at listed
          exact listed.symm
        exact perform_of_not_provided config f c t absent
  · rfl

theorem callScope_subset :
    (callScope vector c).registers ⊆ [.ax, .bx, .cx, .es] ∧
      (callScope vector c).flags ⊆ [.zero, .carry] := by
  rw [callScope_eq]
  cases function? vector c with
  | none => exact ⟨List.nil_subset _, List.nil_subset _⟩
  | some f => exact f.scope_subset _

/-- Whatever a call asks for, whatever the console does, and whether the assignments are made one
after the other or at once: only what is in the scope of its number changes, and the console is
asked to write nothing but the bytes that are to be written. If its output can be looked at, that is
what it shows. Most registers and flags are in no scope. A call that ends the program or is not
provided changes neither the processor nor the console. -/
theorem services_in_scope :
    let reply := serve config vector c t
    let ah := c.registers.high .ax
    attempt (serving config vector) c t = outcome reply ∧
    (callScope vector c).Admits c t reply ∧
    (∀ [Console.Recording C], (callScope vector c).Shows c t reply) ∧
    (∀ name ∈ [Register.cs, .ip, .ss, .sp, .bp, .si, .di, .ds, .dx],
      reply.cpu.registers.get name = c.registers.get name) ∧
    (∀ flag ∉ [Flag.zero, .carry], reply.cpu.flags.get flag = c.flags.get flag) ∧
    reply.cpu.halted = c.halted ∧
    (vector = terminateVector ∨ vector = serviceVector ∧ ah = 0x00 →
      reply = ⟨.ok (.terminate 0), c, t⟩) ∧
    (vector = serviceVector → ah = 0x4C →
      reply = ⟨.ok (.terminate (c.registers.low .ax)), c, t⟩) ∧
    (vector ≠ terminateVector → (vector = serviceVector → ah ∉ provided) →
      reply = ⟨.ok (.unimplemented ah), c, t⟩) := by
  intro reply ah
  have within : (callScope vector c).Admits c t reply := admits_serve config vector c t
  obtain ⟨registers, flags⟩ := callScope_subset vector c
  refine ⟨attempt_serving config vector c t, within, within.shows, ?_, ?_, within.allows.halted, ?_,
    ?_, serve_of_not_provided config vector c t⟩
  · intro name among
    have outside : name ∉ [Register.ax, .bx, .cx, .es] := by
      revert name
      decide
    exact within.allows.register name (fun listed => outside (registers listed))
      fun whole => absurd (whole ▸ .head _) outside
  · intro flag outside
    exact within.allows.flag flag fun listed => outside (flags listed)
  · rintro (rfl | ⟨rfl, number⟩)
    · rfl
    · have function : Function.ofNumber? ah.toNat = some .programTerminate := by
        rw [number]
        rfl
      exact serve_of_number function
  · rintro rfl number
    have function : Function.ofNumber? ah.toNat = some .terminate := by
      rw [number]
      rfl
    exact serve_of_number function

end I8086.Dos
