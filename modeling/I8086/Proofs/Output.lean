import I8086.Proofs.KeyQueue
import I8086.Proofs.Step

/-!
# What a program writes

Two functions of interrupt 21h write more than one byte: one writes a text, which ends before the
first `$`, the other a number of bytes to a handle. Both take their bytes from the data segment, at
whose end they go on at its beginning, and hand them to the console. A console shows what it has
taken as its `output`. Of the consoles that take bytes one by one, one with room for all bytes takes
them all; one with less room takes as many as it has room for, and then the call fails and leaves
the processor alone.
-/

namespace I8086

/-! ## Consoles that show what they have taken -/

namespace Console

section

variable {C : Type} (output : C → List Byte)

/-- An attempt to write bytes shows a first part of them, and all of them if it succeeds. -/
def Shows (c : C) (bytes : List Byte) (result : Console.Outcome C Unit) : Prop :=
  ∃ sent, sent <+: bytes ∧ output result.2 = output c ++ sent ∧ (result.1 = .ok () → sent = bytes)

variable {output} {writeByte : C → Byte → Console.Outcome C Unit}

theorem oneByOne_cons_of_ok {c c' : C} {b : Byte} (written : writeByte c b = (.ok (), c'))
    (bytes : List Byte) : oneByOne writeByte c (b :: bytes) = oneByOne writeByte c' bytes := by
  rw [oneByOne, written]

theorem oneByOne_cons_of_error {c c' : C} {b : Byte} {reason : String}
    (refused : writeByte c b = (.error reason, c')) (bytes : List Byte) :
    oneByOne writeByte c (b :: bytes) = (.error reason, c') := by
  rw [oneByOne, refused]

/-- Bytes that are written one by one are shown as each of them is. -/
theorem shows_oneByOne (single : ∀ c b, Shows output c [b] (writeByte c b)) (c : C)
    (bytes : List Byte) : Shows output c bytes (oneByOne writeByte c bytes) := by
  induction bytes generalizing c with
  | nil => exact ⟨[], List.prefix_rfl, (List.append_nil _).symm, fun _ => rfl⟩
  | cons b bytes ih =>
      obtain ⟨first, part, shown, complete⟩ := single c b
      rcases written : writeByte c b with ⟨reason | _, c'⟩
      · rw [oneByOne_cons_of_error written]
        rw [written] at shown
        have among : [b] <+: b :: bytes := ⟨bytes, rfl⟩
        exact ⟨first, part.trans among, shown, nofun⟩
      · rw [oneByOne_cons_of_ok written]
        rw [written] at shown complete
        obtain rfl : first = [b] := complete rfl
        obtain ⟨sent, part, after, complete⟩ := ih c'
        refine ⟨b :: sent, List.prefix_cons_inj b |>.mpr part, ?_, fun done => ?_⟩
        · rw [after, shown, List.append_assoc, List.singleton_append]
        · rw [complete done]

end

/-- A console whose output can be looked at: the bytes that it has taken, in their order. A failure
to write may come at any byte, before it is taken or after, and keys have nothing to do with it. -/
class Recording (C : Type) [Console C] where
  output : C → List Byte
  shows_writeByte (c : C) (b : Byte) : Shows output c [b] (writeByte c b)
  shows_writeBytes (c : C) (bytes : List Byte) : Shows output c bytes (writeBytes c bytes)
  output_readKey (c : C) : output (readKey c).2 = output c
  output_pollKey (c : C) : output (pollKey c).2 = output c

/-- A console that has room for a number of bytes, or for any number of them, and takes them one by
one. Every byte that is taken uses up a place, and where there is none left every byte is
refused. -/
class Limited (C : Type) [Console C] extends Recording C where
  room : C → Option Nat
  writeByte_of_room {c : C} (b : Byte) (free : room c ≠ some 0) :
    ∃ c', writeByte c b = (.ok (), c') ∧ room c' = (room c).map (· - 1)
  writeByte_of_full {c : C} (b : Byte) (full : room c = some 0) :
    ∃ reason c', writeByte c b = (.error reason, c') ∧ output c' = output c
  writeBytes_eq (c : C) (bytes : List Byte) : writeBytes c bytes = oneByOne writeByte c bytes

/-- A script shows the byte that it takes. -/
theorem shows_script (s : Script) (b : Byte) :
    Shows (fun s : Script => s.output.toList) s [b] (s.writeByte b) := by
  obtain ⟨keys, room, output⟩ := s
  rcases room with _ | _ | room
  · exact ⟨[b], List.prefix_rfl, Array.toList_push, fun _ => rfl⟩
  · exact ⟨[], List.nil_prefix, (List.append_nil _).symm, nofun⟩
  · exact ⟨[b], List.prefix_rfl, Array.toList_push, fun _ => rfl⟩

instance : Limited Script where
  output s := s.output.toList
  shows_writeByte := shows_script
  shows_writeBytes := shows_oneByOne shows_script
  output_readKey s := by
    obtain ⟨_ | ⟨k, ks⟩, room, output⟩ := s <;> rfl
  output_pollKey s := by
    obtain ⟨_ | ⟨k, ks⟩, room, output⟩ := s <;> rfl
  room := Script.room
  writeByte_of_room {s} b free := by
    obtain ⟨keys, room, output⟩ := s
    rcases room with _ | _ | room
    · exact ⟨_, rfl, rfl⟩
    · exact absurd rfl free
    · exact ⟨_, rfl, rfl⟩
  writeByte_of_full {s} b full := by
    obtain ⟨keys, room, output⟩ := s
    cases full
    exact ⟨_, _, rfl, rfl⟩
  writeBytes_eq _ _ := rfl

open Recording Limited

variable {C : Type} [Console C]

/-- A byte that has been written has been shown. -/
theorem output_of_ok [Recording C] {c c' : C} {b : Byte} (written : writeByte c b = (.ok (), c')) :
    output c' = output c ++ [b] := by
  obtain ⟨sent, -, shown, complete⟩ := shows_writeByte c b
  rw [written] at shown complete
  rw [shown, complete rfl]

/-- Bytes for which there is room are all taken. -/
theorem writeBytes_of_room [Limited C] {c : C} {bytes : List Byte}
    (fits : ∀ r, room c = some r → bytes.length ≤ r) :
    ∃ c', writeBytes c bytes = (.ok (), c') ∧ output c' = output c ++ bytes := by
  induction bytes generalizing c with
  | nil => exact ⟨c, writeBytes_eq c [], (List.append_nil _).symm⟩
  | cons b bytes ih =>
      have free : room c ≠ some 0 := by
        intro full
        exact absurd (fits 0 full) (Nat.not_succ_le_zero _)
      obtain ⟨c₁, first, left⟩ := writeByte_of_room b free
      have rest : ∀ r, room c₁ = some r → bytes.length ≤ r := by
        intro r has
        rw [left, Option.map_eq_some_iff] at has
        obtain ⟨all, before, rfl⟩ := has
        exact Nat.le_sub_one_of_lt (fits all before)
      obtain ⟨c', written, shown⟩ := ih rest
      refine ⟨c', ?_, ?_⟩
      · rw [writeBytes_eq, oneByOne_cons_of_ok first, ← writeBytes_eq, written]
      · rw [shown, output_of_ok first, List.append_assoc, List.singleton_append]

/-- Of more bytes than there is room for, those are taken for which there is. -/
theorem writeBytes_of_full [Limited C] {c : C} {bytes : List Byte} {r : Nat}
    (has : room c = some r) (long : r < bytes.length) :
    ∃ reason c', writeBytes c bytes = (.error reason, c') ∧
      output c' = output c ++ bytes.take r := by
  induction r generalizing c bytes with
  | zero =>
      obtain ⟨b, bytes, rfl⟩ := List.exists_cons_of_length_pos long
      obtain ⟨reason, c', refused, same⟩ := writeByte_of_full b has
      refine ⟨reason, c', ?_, ?_⟩
      · rw [writeBytes_eq, oneByOne_cons_of_error refused]
      · rw [same, List.take_zero, List.append_nil]
  | succ r ih =>
      obtain ⟨b, bytes, rfl⟩ := List.exists_cons_of_length_pos (Nat.zero_lt_of_lt long)
      have free : room c ≠ some 0 := by
        intro full
        rw [has] at full
        cases full
      obtain ⟨c₁, first, left⟩ := writeByte_of_room b free
      rw [has] at left
      obtain ⟨reason, c', refused, shown⟩ := ih left (Nat.lt_of_succ_lt_succ long)
      refine ⟨reason, c', ?_, ?_⟩
      · rw [writeBytes_eq, oneByOne_cons_of_ok first, ← writeBytes_eq, refused]
      · rw [shown, output_of_ok first, List.append_assoc, List.singleton_append,
          List.take_succ_cons]

end Console

namespace Dos

/-! ## Bytes of the data segment -/

theorem length_dataBytes (c : Cpu) (offset : Word) (count : Nat) :
    (dataBytes c offset count).length = count := by
  rw [dataBytes, List.length_map, List.length_range]

/-- The first of more bytes are fewer bytes. -/
theorem take_dataBytes (c : Cpu) (offset : Word) {count more : Nat} (le : count ≤ more) :
    (dataBytes c offset more).take count = dataBytes c offset count := by
  rw [dataBytes, ← List.map_take, List.take_range, Nat.min_eq_left le, dataBytes]

/-- The loop over a text counts the bytes before the first end, from those on that it has seen. -/
theorem textLengthFrom_eq (c : Cpu) (offset : Word) (room seen : Nat) :
    textLengthFrom c offset room seen =
      seen + (((List.range' seen room).map fun i =>
        c.readByte .ds (offset + BitVec.ofNat 16 i)).takeWhile (· ≠ textEnd)).length := by
  induction room generalizing seen with
  | zero => rfl
  | succ room ih =>
      rw [textLengthFrom, List.range'_succ, List.map_cons]
      by_cases ends : c.readByte .ds (offset + BitVec.ofNat 16 seen) = textEnd
      · rw [if_pos ends, List.takeWhile_cons_of_neg (by simp [ends])]
        rfl
      · rw [if_neg ends, List.takeWhile_cons_of_pos (by simp [ends]), ih, List.length_cons]
        omega

/-- A text is what stands before the first `$` of the segment, and the whole segment, beginning at
the text, if there is none. -/
theorem text_eq_takeWhile (c : Cpu) (offset : Word) :
    text c offset = (dataBytes c offset 0x10000).takeWhile (· ≠ textEnd) := by
  have length : textLength c offset =
      ((dataBytes c offset 0x10000).takeWhile (· ≠ textEnd)).length := by
    rw [textLength, textLengthFrom_eq, Nat.zero_add, dataBytes, List.range_eq_range']
    rfl
  have part := List.takeWhile_prefix (l := dataBytes c offset 0x10000) (· ≠ textEnd)
  have short := part.length_le
  rw [length_dataBytes] at short
  rw [text, length, ← take_dataBytes c offset short]
  exact (List.prefix_iff_eq_take.mp part).symm

/-- A text that ends somewhere in the segment, read up to its end. -/
theorem takeWhile_dataBytes {c : Cpu} {offset : Word} {n : Nat} (inside : n < 0x10000)
    (before : ∀ i < n, c.readByte .ds (offset + BitVec.ofNat 16 i) ≠ textEnd)
    (ends : c.readByte .ds (offset + BitVec.ofNat 16 n) = textEnd) :
    (dataBytes c offset 0x10000).takeWhile (· ≠ textEnd) = dataBytes c offset n := by
  -- The text, its end, and whatever stands behind it.
  have split : dataBytes c offset 0x10000 = dataBytes c offset n ++ textEnd ::
      (dataBytes c offset 0x10000).drop (n + 1) := by
    have here : n < (dataBytes c offset 0x10000).length := by rwa [length_dataBytes]
    have byte : (dataBytes c offset 0x10000)[n] = textEnd := by
      simpa only [dataBytes, List.getElem_map, List.getElem_range] using ends
    rw [← byte, ← take_dataBytes c offset (Nat.le_of_lt inside), List.getElem_cons_drop,
      List.take_append_drop]
  rw [split, List.takeWhile_append_of_pos, List.takeWhile_cons_of_neg (by simp), List.append_nil]
  intro b among
  obtain ⟨i, below, rfl⟩ := List.mem_map.mp among
  exact decide_eq_true (before i (List.mem_range.mp below))

/-! ## Writing through a terminal -/

namespace Terminal

variable {C : Type} [Console C]

/-- What the console has taken. -/
def output [Console.Recording C] (t : Terminal C) : List Byte := Console.Recording.output t.console

/-- How many bytes the console has room for. -/
def room [Console.Limited C] (t : Terminal C) : Option Nat := Console.Limited.room t.console

theorem write_eq (t : Terminal C) (bytes : List Byte) :
    t.write bytes =
      ((Console.writeBytes t.console bytes).1,
        { t with console := (Console.writeBytes t.console bytes).2 }) := rfl

end Terminal

variable {C : Type} [Console C] {config : Config} {c : Cpu} {t : Terminal C}

/-- A call of interrupt 21h is served by the function whose number is in AH. -/
theorem serve_of_number {f : Function}
    (number : Function.ofNumber? (c.registers.high .ax).toNat = some f) :
    serve config serviceVector c t = perform config f c t := by
  rw [serve, if_neg (by decide), if_pos rfl, number]

/-! ## The functions that write -/

section

variable [Console.Limited C] {m : Machine (Terminal C)}

/-- The interrupt writes bytes, and if they have all been taken the processor is `after`. A console
without room for all of them takes as many as it has room for; then the interrupt fails, and nothing
but the console has changed. -/
structure Writes (m : Machine (Terminal C)) (bytes : List Byte) (after : Cpu) : Prop where
  complete : (∀ r, m.world.room = some r → bytes.length ≤ r) →
    ∃ t, m.raise serviceVector = (.ok .next, { m with cpu := after, world := t }) ∧
      t.output = m.world.output ++ bytes
  cut : ∀ r, m.world.room = some r → r < bytes.length →
    ∃ reason t, m.raise serviceVector = (.error (.io reason), { m with world := t }) ∧
      t.output = m.world.output ++ bytes.take r

theorem writes_of_serve {bytes : List Byte} {after : Cpu}
    (served : m.bus.target? serviceVector = some (handler C config))
    (replies : serve config serviceVector m.cpu m.world =
      Terminal.reply (m.world.write bytes) m.cpu fun () => after) : Writes m bytes after := by
  have raised : m.raise serviceVector = m.serve (handler C config) serviceVector :=
    Machine.raise_of_target served
  have answer : (handler C config).serve serviceVector m.cpu m.world =
      Terminal.reply (m.world.write bytes) m.cpu fun () => after := replies
  rw [Terminal.write_eq] at answer
  constructor
  · intro fits
    obtain ⟨console, written, shown⟩ := Console.writeBytes_of_room fits
    refine ⟨{ m.world with console }, ?_, shown⟩
    rw [raised, Machine.serve_eq, answer, written]
    rfl
  · intro r has long
    obtain ⟨reason, console, refused, shown⟩ := Console.writeBytes_of_full has long
    refine ⟨reason, { m.world with console }, ?_, shown⟩
    rw [raised, Machine.serve_eq, answer, refused]
    rfl

/-- What the functions 09h and 40h write, byte by byte. The text at `DS:DX` ends before the first
`$`, wherever in the segment that is, and comprises the whole segment if there is none. To the
handles 1 and 2 go `CX` bytes, from `DS:DX` on; every other handle is refused, with an error code in
AX and CF set, and nothing is written. -/
theorem output_exact
    (served : m.bus.target? serviceVector = some (handler C config)) :
    let c := m.cpu
    let r := c.registers
    (r.high .ax = 0x09 →
      Writes m ((dataBytes c r.dx 0x10000).takeWhile (· ≠ 0x24)) (c.setLow .ax 0x24)) ∧
    (r.high .ax = 0x40 → r.bx = 1 ∨ r.bx = 2 →
      Writes m (dataBytes c r.dx r.cx.toNat) ((c.setRegister .ax r.cx).setFlag .carry false)) ∧
    (r.high .ax = 0x40 → ¬(r.bx = 1 ∨ r.bx = 2) →
      m.raise serviceVector =
        (.ok .next, { m with cpu := (c.setRegister .ax 6).setFlag .carry true })) := by
  intro c r
  refine ⟨fun number => ?_, fun number open_ => ?_, fun number closed => ?_⟩
  · have performs : serve config serviceVector m.cpu m.world =
        perform config .displayString m.cpu m.world :=
      serve_of_number (by rw [number]; rfl)
    refine writes_of_serve served (performs.trans ?_)
    rw [perform, text_eq_takeWhile]
    rfl
  · have performs : serve config serviceVector m.cpu m.world =
        perform config .writeFile m.cpu m.world :=
      serve_of_number (by rw [number]; rfl)
    refine writes_of_serve served (performs.trans ?_)
    rw [perform, writeHandle, if_pos open_]
  · have performs : serve config serviceVector m.cpu m.world =
        perform config .writeFile m.cpu m.world :=
      serve_of_number (by rw [number]; rfl)
    have answer : (handler C config).serve serviceVector m.cpu m.world =
        ⟨.ok .done, (c.setRegister .ax 6).setFlag .carry true, m.world⟩ := by
      refine performs.trans ?_
      rw [perform, writeHandle, if_neg closed]
      rfl
    rw [Machine.raise_of_target served, Machine.serve_eq, answer]
    rfl

end

/-- A text that begins with the last byte of the segment and ends in its second one, on a console
with room for one byte. -/
theorem output_exact_of_wrapping_text :
    let memory :=
      ((Memory.zero.set 0x2FFFF 0x41).set 0x20000 0x42).set 0x20001 0x24
    let m : Machine (Terminal Script) :=
      { cpu := { registers := { ax := 0x0900, ds := 0x2000, dx := 0xFFFF }, memory }
        world := { console := { room := some 1 } }
        bus := .register .empty ⟨terminateVector, serviceVector, handler Script {}⟩ }
    ∃ reason t, m.raise serviceVector = (.error (.io reason), { m with world := t }) ∧
      t.output = [0x41] := by
  intro memory m
  have byte (i : Nat) : m.cpu.readByte .ds (m.cpu.registers.dx + BitVec.ofNat 16 i) =
      memory.get (Address.translate 0x2000 (0xFFFF + BitVec.ofNat 16 i)) := rfl
  have first : m.cpu.readByte .ds (m.cpu.registers.dx + BitVec.ofNat 16 0) = 0x41 := by
    rw [byte, Memory.get_set_ne _ _ (by decide), Memory.get_set_ne _ _ (by decide)]
    exact Memory.get_set_self _ _ _
  have second : m.cpu.readByte .ds (m.cpu.registers.dx + BitVec.ofNat 16 1) = 0x42 := by
    rw [byte, Memory.get_set_ne _ _ (by decide)]
    exact Memory.get_set_self _ _ _
  have third : m.cpu.readByte .ds (m.cpu.registers.dx + BitVec.ofNat 16 2) = textEnd := by
    rw [byte]
    exact Memory.get_set_self _ _ _
  have text : (dataBytes m.cpu m.cpu.registers.dx 0x10000).takeWhile (· ≠ 0x24) =
      [0x41, 0x42] := by
    refine (takeWhile_dataBytes (n := 2) (by decide) ?_ third).trans ?_
    · intro i below
      match i with
      | 0 => exact first ▸ by decide
      | 1 => exact second ▸ by decide
    · exact congr (congrArg (fun a b => [a, b]) first) second
  have number : m.cpu.registers.high .ax = 0x09 := show Word.high 0x0900 = 0x09 by decide
  have writes := (output_exact (m := m) rfl).1 number
  obtain ⟨reason, t, failed, shown⟩ := writes.cut 1 rfl (by rw [text]; decide)
  refine ⟨reason, t, failed, shown.trans ?_⟩
  rw [text]
  rfl

end Dos

end I8086
