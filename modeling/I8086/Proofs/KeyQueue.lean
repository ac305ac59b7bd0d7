import I8086.Dos.Services

/-!
# Keys come in order

The services take keys from the console through a place for one key, where the input status check
leaves the key that it has had to take. Seen from outside there is only one queue: the key in that
place, if there is one, and behind it the keys of the console. `Terminal.putBack` is the console
that has this queue for its keys, and `keyboard_is_queue` says that the services do with it what
`Fifo` says of a plain queue, call by call and over all sequences of calls.
-/

namespace I8086.Dos

/-! ## What is asked of the keyboard -/

/-- What a call asks of the keyboard. -/
inductive KeyRequest where
  /-- The next key, which has to be there. It is shown or not. -/
  | read (echo : Bool)
  /-- The next key, if there is one. -/
  | poll
  /-- Whether there is a key. -/
  | status
  | nothing
deriving DecidableEq

/-- The request of a call of interrupt 21h: its number is in AH, and function 06h reads if DL is
FF. -/
def keyRequest (c : Cpu) : KeyRequest :=
  let ah := c.registers.high .ax
  if ah = 0x01 then .read true
  else if ah = 0x07 ∨ ah = 0x08 then .read false
  else if ah = 0x06 ∧ c.registers.low .dx = 0xFF then .poll
  else if ah = 0x0B then .status
  else .nothing

/-- The request, by the function's name. -/
def Function.keyRequest (input : Bool) : Function → KeyRequest
  | characterInput => .read true
  | directConsoleInput | consoleInputNoEcho => .read false
  | directConsoleIo => if input then .poll else .nothing
  | inputStatus => .status
  | _ => .nothing

theorem keyRequest_eq (c : Cpu) :
    keyRequest c =
      match Function.ofNumber? (c.registers.high .ax).toNat with
      | some f => f.keyRequest (c.registers.low .dx = 0xFF)
      | none => .nothing := by
  have all : ∀ (ah : Byte) (input : Bool),
      (if ah = 0x01 then KeyRequest.read true
        else if ah = 0x07 ∨ ah = 0x08 then .read false
        else if ah = 0x06 ∧ input then .poll
        else if ah = 0x0B then .status
        else .nothing) =
      match Function.ofNumber? ah.toNat with
      | some f => f.keyRequest input
      | none => .nothing := by
    decide +kernel
  have request := all (c.registers.high .ax) (c.registers.low .dx = 0xFF)
  simpa only [keyRequest, decide_eq_true_eq] using request

/-! ## The queue -/

namespace Terminal

/-- The keys that are still to be read. -/
def pending (t : Terminal Script) : List Byte := t.lookahead.toList ++ t.console.keys

/-- The console with the key in front of it put back. -/
def putBack (t : Terminal Script) : Script := { t.console with keys := t.pending }

@[simp] theorem putBack_mk (s : Script) : putBack ⟨s, none⟩ = s := rfl

/-- A key in front of the console is read as if it had been put back. -/
theorem readKey_eq (t : Terminal Script) : t.readKey = readKey ⟨t.putBack, none⟩ := by
  obtain ⟨console, lookahead⟩ := t
  cases lookahead <;> rfl

theorem pollKey_eq (t : Terminal Script) : t.pollKey = pollKey ⟨t.putBack, none⟩ := by
  obtain ⟨console, lookahead⟩ := t
  cases lookahead <;> rfl

/-- A script takes a byte like a list of one byte. -/
theorem writeByte_eq (t : Terminal Script) (b : Byte) : t.writeByte b = t.write [b] := by
  obtain ⟨⟨keys, room, output⟩, lookahead⟩ := t
  rcases room with _ | _ | room <;> rfl

/-- Writing does not depend on the keys and does not change them. -/
theorem writeBytes_keys (s : Script) (keys bytes : List Byte) :
    Console.writeBytes { s with keys } bytes =
      ((Console.writeBytes s bytes).1, { (Console.writeBytes s bytes).2 with keys }) := by
  induction bytes generalizing s with
  | nil => rfl
  | cons b bytes ih =>
      obtain ⟨own, room, output⟩ := s
      rcases room with _ | _ | room
      · exact ih ⟨own, none, output.push b⟩
      · rfl
      · exact ih ⟨own, some room, output.push b⟩

theorem keys_writeBytes (s : Script) (bytes : List Byte) :
    (Console.writeBytes s bytes).2.keys = s.keys :=
  congrArg (·.2.keys) (writeBytes_keys s s.keys bytes)

theorem putBack_write (t : Terminal Script) (bytes : List Byte) :
    (t.write bytes).2.putBack = (Console.writeBytes t.putBack bytes).2 := by
  have keys := keys_writeBytes t.console bytes
  rw [putBack, putBack, writeBytes_keys, pending, pending, ← keys]
  rfl

theorem fst_write (t : Terminal Script) (bytes : List Byte) :
    (t.write bytes).1 = (Console.writeBytes t.putBack bytes).1 := by
  rw [putBack, writeBytes_keys]
  rfl

end Terminal

open Terminal

/-- A reply as it looks from outside. -/
def putBackReply (reply : Reply (Terminal Script)) : Reply Script :=
  ⟨reply.service, reply.cpu, reply.world.putBack⟩

/-- The reply to a request to write. -/
theorem putBackReply_write (t : Terminal Script) (bytes : List Byte) (c : Cpu)
    (after : Unit → Cpu) :
    putBackReply (Terminal.reply (t.write bytes) c after) =
      match Console.writeBytes t.putBack bytes with
      | (.ok (), s) => ⟨.ok .done, after (), s⟩
      | (.error reason, s) => ⟨.error (.io reason), c, s⟩ := by
  have result := t.fst_write bytes
  have console := t.putBack_write bytes
  generalize t.write bytes = written at result console ⊢
  generalize Console.writeBytes t.putBack bytes = plain at result console ⊢
  obtain ⟨r, u⟩ := written
  obtain ⟨_, s⟩ := plain
  subst result console
  cases r <;> rfl

/-- Nothing tells whether the key in front of the console has been put back. -/
theorem putBackReply_perform (config : Config) (f : Function) (c : Cpu) (t : Terminal Script) :
    putBackReply (perform config f c t) =
      putBackReply (perform config f c ⟨t.putBack, none⟩) := by
  cases f with
  | characterInput | directConsoleInput | consoleInputNoEcho =>
      simp only [perform, echoKey, readKey_eq t]
  | inputStatus => simp only [perform, pollKey_eq t]
  | directConsoleIo =>
      simp only [perform, directInput, pollKey_eq t, writeCharacter]
      split
      · rfl
      · simp only [writeByte_eq, putBackReply_write, putBack_mk]
  | characterOutput | displayString =>
      simp only [perform, writeCharacter, writeByte_eq, putBackReply_write, putBack_mk]
  | writeFile =>
      simp only [perform, writeHandle]
      split
      · simp only [putBackReply_write, putBack_mk]
      · rfl
  | _ => rfl

/-- Terminals cannot be told apart if they have the same keys and the same console behind them. -/
theorem putBackReply_serve_congr (config : Config) (vector : Byte) (c : Cpu)
    {t t' : Terminal Script} (same : t.putBack = t'.putBack) :
    putBackReply (serve config vector c t) = putBackReply (serve config vector c t') := by
  have idle (service : Except Fault Service) :
      putBackReply ⟨service, c, t⟩ = putBackReply ⟨service, c, t'⟩ :=
    congrArg (Reply.mk service c) same
  simp only [serve]
  split
  · exact idle _
  · split
    · split
      · rw [putBackReply_perform, putBackReply_perform config _ c t', same]
      · exact idle _
    · exact idle _

/-! ## Calls one by one -/

/-- How a queue of keys answers a call: the script holds the keys that are waiting. -/
inductive Fifo (c : Cpu) (s : Script) : KeyRequest → Reply Script → Prop where
  /-- The first key is delivered in AL and removed. -/
  | read {k : Byte} {ks : List Byte} : s.keys = k :: ks →
      Fifo c s (.read false) ⟨.ok .done, c.setLow .ax k, { s with keys := ks }⟩
  /-- Just this key is shown. -/
  | echo {k : Byte} {ks : List Byte} : s.keys = k :: ks → s.room ≠ some 0 →
      Fifo c s (.read true)
        ⟨.ok .done, c.setLow .ax k, ⟨ks, s.room.map (· - 1), s.output.push k⟩⟩
  /-- The console does not take it. -/
  | echoFailed {k : Byte} {ks : List Byte} : s.keys = k :: ks → s.room = some 0 →
      Fifo c s (.read true) ⟨.error (.io "output full"), c, { s with keys := ks }⟩
  /-- Without a key the console fails, as its host's fault, and nothing has changed. -/
  | empty {echo : Bool} : s.keys = [] →
      Fifo c s (.read echo) ⟨.error (.io "no more input"), c, s⟩
  | poll {k : Byte} {ks : List Byte} : s.keys = k :: ks →
      Fifo c s .poll
        ⟨.ok .done, (c.setLow .ax k).setFlag .zero false, { s with keys := ks }⟩
  | pollEmpty : s.keys = [] →
      Fifo c s .poll ⟨.ok .done, (c.setLow .ax 0).setFlag .zero true, s⟩
  | status : Fifo c s .status ⟨.ok .done, c.setLow .ax (if s.keys = [] then 0 else 0xFF), s⟩
  /-- Other calls may do anything but take keys. -/
  | nothing {reply : Reply Script} : reply.world.keys = s.keys → Fifo c s .nothing reply

theorem fifo_perform (config : Config) (f : Function) (c : Cpu) (s : Script) :
    Fifo c s (f.keyRequest (c.registers.low .dx = 0xFF))
      (putBackReply (perform config f c ⟨s, none⟩)) := by
  have writes (bytes : List Byte) (after : Unit → Cpu) :
      Fifo c s .nothing (putBackReply (Terminal.reply (write ⟨s, none⟩ bytes) c after)) := by
    refine .nothing ?_
    have kept := keys_writeBytes s bytes
    rw [putBackReply_write, putBack_mk]
    generalize Console.writeBytes s bytes = written at kept ⊢
    obtain ⟨r, s'⟩ := written
    cases r <;> exact kept
  have writesCharacter : Fifo c s .nothing (putBackReply (writeCharacter c ⟨s, none⟩)) := by
    rw [writeCharacter, writeByte_eq]
    exact writes _ _
  obtain ⟨keys, room, output⟩ := s
  cases f with
  | characterInput =>
      cases keys with
      | nil => exact .empty rfl
      | cons k ks =>
          rcases room with _ | _ | room
          · exact .echo rfl (by simp)
          · exact .echoFailed rfl rfl
          · exact .echo rfl (by simp)
  | directConsoleInput | consoleInputNoEcho =>
      cases keys with
      | nil => exact .empty rfl
      | cons k ks => exact .read rfl
  | inputStatus =>
      cases keys with
      | nil => exact .status
      | cons k ks => exact .status
  | directConsoleIo =>
      simp only [perform, Function.keyRequest]
      by_cases input : c.registers.low .dx = 0xFF
      · simp only [input, decide_true, if_true]
        cases keys with
        | nil => exact .pollEmpty rfl
        | cons k ks => exact .poll rfl
      · simp only [input, decide_false, if_false, Bool.false_eq_true]
        exact writesCharacter
  | characterOutput => exact writesCharacter
  | displayString => exact writes _ _
  | writeFile =>
      simp only [perform, writeHandle]
      split
      · exact writes _ _
      · exact .nothing rfl
  | _ => exact .nothing rfl

theorem serve_serviceVector (config : Config) (c : Cpu) (t : Terminal Script) :
    serve config serviceVector c t =
      match Function.ofNumber? (c.registers.high .ax).toNat with
      | some f => perform config f c t
      | none => ⟨.ok (.unimplemented (c.registers.high .ax)), c, t⟩ := rfl

/-- Every call is answered as by a queue. -/
theorem fifo_serve (config : Config) (c : Cpu) (t : Terminal Script) :
    Fifo c t.putBack (keyRequest c) (putBackReply (serve config serviceVector c t)) := by
  rw [keyRequest_eq, serve_serviceVector]
  cases Function.ofNumber? (c.registers.high .ax).toNat with
  | none => exact .nothing rfl
  | some f =>
      show Fifo c _ _ (putBackReply (perform config f c t))
      rw [putBackReply_perform]
      exact fifo_perform config f c t.putBack

/-! ## Sequences of calls -/

/-- The calls with their replies. -/
def session (config : Config) : Terminal Script → List Cpu → List (Cpu × Reply (Terminal Script))
  | _, [] => []
  | t, c :: calls =>
    let reply := serve config serviceVector c t
    (c, reply) :: session config reply.world calls

/-- The terminal after the calls. -/
def after (config : Config) (t : Terminal Script) (calls : List Cpu) : Terminal Script :=
  calls.foldl (fun t c => (serve config serviceVector c t).world) t

/-- The key that a successful call has delivered, as its caller sees it: in AL, and where there may
have been none, with ZF clear. -/
def KeyRequest.delivered? (after : Cpu) : KeyRequest → Option Byte
  | .read _ => some (after.registers.low .ax)
  | .poll => if after.flags.zero then none else some (after.registers.low .ax)
  | .status | .nothing => none

/-- Looking whether there is a key changes nothing. -/
theorem Fifo.world_eq {c : Cpu} {s : Script} {reply : Reply Script}
    (fifo : Fifo c s .status reply) : reply.world = s := by
  cases fifo
  rfl

/-- A call that succeeds delivers the first key or none. -/
theorem Fifo.keys_eq {c : Cpu} {s : Script} {request : KeyRequest} {reply : Reply Script}
    (fifo : Fifo c s request reply) {service : Service} (succeeds : reply.service = .ok service) :
    s.keys = (request.delivered? reply.cpu).toList ++ reply.world.keys := by
  have al (k : Byte) : (c.setLow .ax k).registers.low .ax = k := c.registers.low_setLow .ax k
  cases fifo with
  | read first | echo first =>
      simp only [first, KeyRequest.delivered?, al, Option.toList_some, List.singleton_append]
  | echoFailed => cases succeeds
  | empty => cases succeeds
  | @poll k ks first =>
      have shown : KeyRequest.delivered? ((c.setLow .ax k).setFlag .zero false) .poll = some k :=
        congrArg some (al k)
      rw [first, shown]
      rfl
  | pollEmpty => rfl
  | status => rfl
  | nothing kept => exact kept.symm

/-- The key that a call with its reply has delivered. -/
def delivered? (call : Cpu × Reply (Terminal Script)) : Option Byte :=
  (keyRequest call.1).delivered? call.2.cpu

variable {config : Config} {t t' : Terminal Script}

/-- Calls that succeed have delivered the first of the keys, in their order, and the others wait. -/
theorem pending_eq {calls : List Cpu}
    (succeed : ∀ call ∈ session config t calls, ∃ service, call.2.service = .ok service) :
    t.pending =
      (session config t calls).filterMap delivered? ++ (after config t calls).pending := by
  induction calls generalizing t with
  | nil => rfl
  | cons c calls ih =>
      obtain ⟨service, first⟩ := succeed _ List.mem_cons_self
      have keys : t.pending = (delivered? (c, serve config serviceVector c t)).toList ++
          (serve config serviceVector c t).world.pending :=
        (fifo_serve config c t).keys_eq first
      have rest := ih fun call later => succeed call (List.mem_cons_of_mem _ later)
      rw [keys, rest, session, List.filterMap_cons]
      cases delivered? (c, serve config serviceVector c t) <;> rfl

-- A key that has been looked at is the next to be read.
example :
    let call (ah : Byte) : Cpu := Cpu.setHigh {} .ax ah
    (session {} ⟨{ keys := [0x71, 0x72] }, none⟩ [call 0x0B, call 0x08, call 0x0B, call 0x01]).map
      delivered? = [none, some 0x71, none, some 0x72] := rfl

/-- What the callers see of those calls that ask for more than the status. -/
def heard (calls : List (Cpu × Reply (Terminal Script))) :
    List (Cpu × Except Fault Service × Cpu) :=
  (calls.filter fun call => keyRequest call.1 ≠ .status).map fun call =>
    (call.1, call.2.service, call.2.cpu)

/-- Status checks can be left out. -/
theorem heard_session (config : Config) (same : t.putBack = t'.putBack) (calls : List Cpu) :
    let others := calls.filter fun c => keyRequest c ≠ .status
    heard (session config t calls) = heard (session config t' others) ∧
      (after config t calls).putBack = (after config t' others).putBack := by
  induction calls generalizing t t' with
  | nil => exact ⟨rfl, same⟩
  | cons c calls ih =>
      by_cases status : keyRequest c = .status
      · have kept : (serve config serviceVector c t).world.putBack = t.putBack := by
          have fifo := fifo_serve config c t
          rw [status] at fifo
          exact fifo.world_eq
        simp only [heard, session, List.filter_cons, status]
        exact ih (kept.trans same)
      · have replies := putBackReply_serve_congr config serviceVector c same
        have answer : (c, (serve config serviceVector c t).service,
              (serve config serviceVector c t).cpu) =
            (c, (serve config serviceVector c t').service, (serve config serviceVector c t').cpu) :=
          congrArg (fun reply => (c, reply.service, reply.cpu)) replies
        have rest := ih (congrArg Reply.world replies)
        have asks : decide (keyRequest c ≠ .status) = true := decide_eq_true status
        simp only [heard, session, List.filter_cons, asks, if_true, List.map_cons]
        exact ⟨congr (congrArg List.cons answer) rest.1, rest.2⟩

/-- The services refine a queue of keys. One by one, calls of interrupt 21h are answered as by the
queue that has the key in front of the console put back. Over any sequence of calls that all
succeed, the keys delivered are the first of those pending, and the others are still pending: none
is lost, delivered twice or out of order. And however many status checks are made and wherever, they
change neither what is answered to any other call nor what is pending and shown in the end. -/
theorem keyboard_is_queue (config : Config) :
    (∀ c t, Fifo c t.putBack (keyRequest c)
      (putBackReply (serve config serviceVector c t))) ∧
    (∀ t calls, (∀ call ∈ session config t calls, ∃ service, call.2.service = .ok service) →
      t.pending =
        (session config t calls).filterMap delivered? ++ (after config t calls).pending) ∧
    ∀ t calls calls',
      (calls.filter fun c => keyRequest c ≠ .status) =
        (calls'.filter fun c => keyRequest c ≠ .status) →
      heard (session config t calls) = heard (session config t calls') ∧
        (after config t calls).putBack = (after config t calls').putBack := by
  refine ⟨fifo_serve config, fun t calls => pending_eq, fun t calls calls' same => ?_⟩
  obtain ⟨heard, console⟩ := heard_session config (Eq.refl t.putBack) calls
  obtain ⟨heard', console'⟩ := heard_session config (Eq.refl t.putBack) calls'
  rw [same] at heard console
  exact ⟨heard.trans heard'.symm, console.trans console'.symm⟩

end I8086.Dos
