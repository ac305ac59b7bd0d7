import I8086.Console
import I8086.Dos.Function
import I8086.Hex
import I8086.Interrupt

/-!
# The console services of the operating system

Interrupt 20h ends the program; interrupt 21h serves the function in AH. The services that are
provided read keys, write bytes, report the version, give access to the vector table and end the
program; every other function number is refused without any effect. A service fails only if the
console does, and then it leaves the processor as it was.

Keys come from the console in order. The input status check has to take a key to know that there
is one; it keeps that key in `lookahead`, where the next read finds it.
-/

namespace I8086.Dos

/-- The interrupt that ends a program. -/
def terminateVector : Byte := 0x20

/-- The interrupt of the numbered functions. -/
def serviceVector : Byte := 0x21

/-- The character that ends a text for output. -/
def textEnd : Byte := 0x24

/-- The longest text, which fills a whole segment. -/
def maxTextLength : Nat := 0x10000

/-- The error code for a handle that is not open. -/
def invalidHandle : Word := 6

/-- What the version function reports. -/
structure Config where
  major : Byte := 0
  minor : Byte := 0
  oem : Oem := .ibm

/-- A console, and a key that has been taken from it but not been read yet. -/
structure Terminal (C : Type) where
  console : C
  lookahead : Option Byte := none

namespace Terminal

variable {C : Type} [Console C]

/-- The next key. -/
def readKey (t : Terminal C) : Console.Outcome (Terminal C) Byte :=
  match t.lookahead with
  | some k => (.ok k, { t with lookahead := none })
  | none =>
    let (r, console) := Console.readKey t.console
    (r, { t with console })

/-- The next key, which stays in place, or none if no key is there. -/
def pollKey (t : Terminal C) : Console.Outcome (Terminal C) (Option Byte) :=
  match t.lookahead with
  | some k => (.ok (some k), t)
  | none =>
    match Console.pollKey t.console with
    | (.ok k, console) => (.ok k, ⟨console, k⟩)
    | (.error reason, console) => (.error reason, ⟨console, none⟩)

/-- Writes one byte. -/
def writeByte (t : Terminal C) (b : Byte) : Console.Outcome (Terminal C) Unit :=
  match t with
  | ⟨console, lookahead⟩ =>
    let (r, console) := Console.writeByte console b
    (r, ⟨console, lookahead⟩)

/-- Writes any number of bytes. -/
def write (t : Terminal C) (bytes : List Byte) : Console.Outcome (Terminal C) Unit :=
  match t with
  | ⟨console, lookahead⟩ =>
    let (r, console) := Console.writeBytes console bytes
    (r, ⟨console, lookahead⟩)

/-- The reply to a request that needed the console: on success `after` gives the processor state,
on failure it is unchanged. -/
def reply {α : Type} (outcome : Console.Outcome (Terminal C) α) (c : Cpu) (after : α → Cpu) :
    Reply (Terminal C) :=
  match outcome with
  | (.ok a, t) => ⟨.ok .done, after a, t⟩
  | (.error reason, t) => ⟨.error (.io reason), c, t⟩

end Terminal

/-- The bytes at consecutive offsets of the data segment. -/
def dataBytes (c : Cpu) (offset : Word) (count : Nat) : List Byte :=
  (List.range count).map fun i => c.readByte .ds (offset + BitVec.ofNat 16 i)

/-- The length of the text at an offset of the data segment, of which `seen` bytes are known not to
end it and at most `room` more are looked at. -/
def textLengthFrom (c : Cpu) (offset : Word) : (room seen : Nat) → Nat
  | 0, seen => seen
  | room + 1, seen =>
    if c.readByte .ds (offset + BitVec.ofNat 16 seen) = textEnd then seen
    else textLengthFrom c offset room (seen + 1)

/-- The number of bytes before the first text end, or the size of a segment if there is none. -/
def textLength (c : Cpu) (offset : Word) : Nat := textLengthFrom c offset maxTextLength 0

/-- The text at an offset of the data segment, without its end. -/
def text (c : Cpu) (offset : Word) : List Byte := dataBytes c offset (textLength c offset)

section

variable {C : Type} [Console C]

/-- Reads a key and shows it. If showing it fails, the key is gone. -/
def echoKey (t : Terminal C) : Console.Outcome (Terminal C) Byte :=
  match t.readKey with
  | (.ok k, t) =>
    let (r, t) := t.writeByte k
    (r.map fun () => k, t)
  | (.error reason, t) => (.error reason, t)

/-- The function that reads without waiting: a key with ZF clear, or zero with ZF set. -/
def directInput (c : Cpu) (t : Terminal C) : Reply (Terminal C) :=
  match t.pollKey with
  | (.ok k, t) =>
    ⟨.ok .done, (c.setLow .ax (k.getD 0)).setFlag .zero k.isNone, { t with lookahead := none }⟩
  | (.error reason, t) => ⟨.error (.io reason), c, t⟩

/-- Writes the byte in DL. -/
def writeCharacter (c : Cpu) (t : Terminal C) : Reply (Terminal C) :=
  let dl := c.registers.low .dx
  Terminal.reply (t.writeByte dl) c fun () => c.setLow .ax dl

/-- Writes CX bytes to a handle. Only the two console handles are open. -/
def writeHandle (c : Cpu) (t : Terminal C) : Reply (Terminal C) :=
  let handle := c.registers.bx
  if handle = 1 ∨ handle = 2 then
    let count := c.registers.cx
    Terminal.reply (t.write (dataBytes c c.registers.dx count.toNat)) c fun () =>
      (c.setRegister .ax count).setFlag .carry false
  else ⟨.ok .done, (c.setRegister .ax invalidHandle).setFlag .carry true, t⟩

/-- Reports version and maker. -/
def reportVersion (config : Config) (c : Cpu) : Cpu :=
  { c with
    registers :=
      { c.registers with
        ax := Word.ofBytes config.major config.minor
        bx := Word.ofBytes 0 config.oem.number
        cx := 0 } }

/-- Reads a vector into ES and BX. -/
def getVector (c : Cpu) : Cpu :=
  let (segment, offset) := c.readVector (c.registers.low .ax)
  { c with registers := { c.registers with es := segment, bx := offset } }

/-- Replaces a vector by DS and DX. -/
def setVector (c : Cpu) : Cpu :=
  let vector := c.registers.low .ax
  let segment := c.registers.ds
  let offset := c.registers.dx
  c.writeVector vector segment offset

/-- Serves one function. -/
def perform (config : Config) (f : Function) (c : Cpu) (t : Terminal C) : Reply (Terminal C) :=
  match f with
  | .programTerminate => ⟨.ok (.terminate 0), c, t⟩
  | .characterInput => Terminal.reply (echoKey t) c fun k => c.setLow .ax k
  | .characterOutput => writeCharacter c t
  | .directConsoleIo =>
    if c.registers.low .dx = 0xFF then directInput c t else writeCharacter c t
  | .directConsoleInput | .consoleInputNoEcho =>
    Terminal.reply t.readKey c fun k => c.setLow .ax k
  | .displayString =>
    Terminal.reply (t.write (text c c.registers.dx)) c fun () => c.setLow .ax textEnd
  | .inputStatus =>
    Terminal.reply t.pollKey c fun k => c.setLow .ax (if k.isSome then 0xFF else 0)
  | .setVector => ⟨.ok .done, setVector c, t⟩
  | .getVersion => ⟨.ok .done, reportVersion config c, t⟩
  | .getVector => ⟨.ok .done, getVector c, t⟩
  | .writeFile => writeHandle c t
  | .terminate => ⟨.ok (.terminate (c.registers.low .ax)), c, t⟩
  | _ => ⟨.ok (.unimplemented (c.registers.high .ax)), c, t⟩

/-- Serves an interrupt. -/
def serve (config : Config) (vector : Byte) (c : Cpu) (t : Terminal C) : Reply (Terminal C) :=
  let ah := c.registers.high .ax
  if vector = terminateVector then ⟨.ok (.terminate 0), c, t⟩
  else if vector = serviceVector then
    match Function.ofNumber? ah.toNat with
    | some f => perform config f c t
    | none => ⟨.ok (.unimplemented ah), c, t⟩
  else ⟨.ok (.unimplemented ah), c, t⟩

/-- What one function adds to the log. -/
def functionRecords (f : Function) (c : Cpu) : List Record :=
  match f with
  | .displayString =>
    if textLength c c.registers.dx = maxTextLength then
      [⟨.debug, "INT 21h/09h string has no terminator, output truncated"⟩]
    else []
  | .setVector =>
    [⟨.debug, "INT 21h set vector " ++ hexByte (c.registers.low .ax) ++ "h -> " ++
      hexFar c.registers.ds c.registers.dx⟩]
  | .writeFile =>
    let handle := c.registers.bx
    if handle = 1 ∨ handle = 2 then []
    else [⟨.debug, "INT 21h write to handle " ++ toString handle.toNat ++ " refused"⟩]
  | _ => []

/-- What serving an interrupt adds to the log. -/
def records (vector : Byte) (c : Cpu) : List Record :=
  if vector = serviceVector then
    match Function.ofNumber? (c.registers.high .ax).toNat with
    | some f => ⟨.trace, "INT 21h " ++ f.name⟩ :: functionRecords f c
    | none => []
  else []

/-- The services as a handler. -/
def handler (C : Type) [Console C] (config : Config) : Handler (Terminal C) where
  name := "MS-DOS"
  serve := serve config
  records := records

end

end I8086.Dos
