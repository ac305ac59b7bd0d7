import I8086.Word

/-!
# Consoles

A console delivers keys and takes bytes. Any of this may fail, with a text that says why; what a
console did before a failure stays done. Several bytes are written one by one unless a console has a
way of its own. Two consoles are given here, which have none: one that plays a script of keys and
has room for a number of bytes, and one without a keyboard, which only collects output.
-/

namespace I8086

/-- The result of a console operation and the console after it. -/
abbrev Console.Outcome (C α : Type) := Except String α × C

/-- Writes bytes one by one, as a single one is written, and stops at the first failure. -/
def Console.oneByOne {C : Type} (writeByte : C → Byte → Console.Outcome C Unit) (c : C) :
    List Byte → Console.Outcome C Unit
  | [] => (.ok (), c)
  | b :: bs =>
    match writeByte c b with
    | (.ok (), c) => oneByOne writeByte c bs
    | (.error reason, c) => (.error reason, c)

/-- The operations of a console. -/
class Console (C : Type) where
  /-- Waits for a key. -/
  readKey : C → Console.Outcome C Byte
  /-- A key if one is there already. -/
  pollKey : C → Console.Outcome C (Option Byte)
  /-- Writes one byte. -/
  writeByte : C → Byte → Console.Outcome C Unit
  /-- Writes any number of bytes. -/
  writeBytes : C → List Byte → Console.Outcome C Unit := Console.oneByOne writeByte

/-- A console that plays a script: the keys that are still to come, the number of bytes that it
takes (or no limit), and the bytes it has taken. -/
structure Script where
  keys : List Byte := []
  room : Option Nat := none
  output : Array Byte := #[]

namespace Script

/-- The first of the remaining keys. -/
def readKey (s : Script) : Console.Outcome Script Byte :=
  match s.keys with
  | [] => (.error "no more input", s)
  | k :: ks => (.ok k, { s with keys := ks })

/-- The first of the remaining keys, if there is one. -/
def pollKey (s : Script) : Console.Outcome Script (Option Byte) :=
  match s.keys with
  | [] => (.ok none, s)
  | k :: ks => (.ok (some k), { s with keys := ks })

/-- Takes a byte if there is room. -/
def writeByte (s : Script) (b : Byte) : Console.Outcome Script Unit :=
  match s with
  | ⟨keys, none, output⟩ => (.ok (), ⟨keys, none, output.push b⟩)
  | ⟨keys, some (room + 1), output⟩ => (.ok (), ⟨keys, some room, output.push b⟩)
  | ⟨keys, some 0, output⟩ => (.error "output full", ⟨keys, some 0, output⟩)

instance : Console Script where
  readKey := readKey
  pollKey := pollKey
  writeByte := writeByte

end Script

/-- A console without a keyboard. -/
structure OutputOnly where
  output : Array Byte := #[]

instance : Console OutputOnly where
  readKey c := (.error "no keyboard", c)
  pollKey c := (.error "no keyboard", c)
  writeByte c b := (.ok (), ⟨c.output.push b⟩)

end I8086
