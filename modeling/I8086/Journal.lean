import I8086.Machine
import I8086.Opcode.Text

/-!
# The log

What each operation of the machine adds to the log, computed from the state before it. Since no
state holds the log, it cannot influence what the machine does.
-/

namespace I8086.Machine

variable {World : Type}

/-- One line that shows the processor: registers, flags, and the two bytes at `CS:IP`. -/
def summary (m : Machine World) : String :=
  let r := m.cpu.registers
  let shown : List (String × Word) :=
    [("AX", r.ax), ("BX", r.bx), ("CX", r.cx), ("DX", r.dx), ("SP", r.sp), ("BP", r.bp),
      ("SI", r.si), ("DI", r.di), ("DS", r.ds), ("ES", r.es), ("SS", r.ss)]
  String.join (shown.map fun (name, v) => name ++ "=" ++ hexWord v ++ " ") ++
    m.cpu.flags.letters ++ " " ++ hexFar r.cs r.ip ++ " " ++
    hexByte (m.cpu.peekByte 0) ++ hexByte (m.cpu.peekByte 1) ++
    (if m.cpu.halted then " Halted" else "")

/-- The address of the current instruction. -/
def location (m : Machine World) : String :=
  hexFar m.cpu.registers.cs m.cpu.registers.opIp

/-- The records of registering a handler. -/
def registerRecords (m : Machine World) (first last : Byte) (handler : Handler World) :
    List Record :=
  ⟨.debug, "Registering " ++ handler.name ++ " for INT " ++ hexByte first ++ "h-" ++
      hexByte last ++ "h"⟩ ::
    if m.bus.overlaps ⟨first, last, handler⟩ then
      [⟨.warn, handler.name ++ " overlaps an earlier handler, which keeps its vectors"⟩]
    else []

/-- The records of loading a program. -/
def loadRecords (program : List Byte) : List Record :=
  if maxProgramSize < program.length then []
  else
    [⟨.debug, "Loaded " ++ toString program.length ++ " bytes at " ++
      hexFar loadSegment loadOffset⟩]

/-- The records of delivering an interrupt. -/
def raiseRecords (m : Machine World) (vector : Byte) : List Record :=
  match m.bus.target? vector with
  | some handler =>
    ⟨.trace, "INT " ++ hexByte vector ++ "h -> " ++ handler.name ++ " AH=" ++
        hexByte (m.cpu.registers.high .ax)⟩ ::
      handler.records vector m.cpu
  | none =>
    let (cs, ip) := m.cpu.readVector vector
    if cs = 0 ∧ ip = 0 then []
    else
      [⟨.debug, "[IVT] INT " ++ hexByte vector ++ "h -> " ++ hexFar cs ip ++ " at " ++
        m.location⟩]

/-- The records of executing an instruction. -/
def performRecords (m : Machine World) (i : Instruction) (length : Nat) : List Record :=
  let r := m.cpu.registers
  match i with
  | .input w port => Port.readRecords w (port.number r)
  | .output w port => Port.writeRecords w (port.number r) (m.cpu.accumulator w)
  | i =>
    match (m.cpu.advance (BitVec.ofNat 16 length)).execute i with
    | (cpu, .interrupt vector) => raiseRecords { m with cpu } vector
    | _ => []

/-- The line that a traced step shows for an opcode, if there is one at `CS:IP`. -/
def opcodeRecords (m : Machine World) : List Record :=
  let (n, _, ended) := Prefixes.scan m.code maxPrefixRun {}
  match ended, Opcode.ofByte? (m.code n) with
  | true, some op => [⟨.debug, m.location ++ " " ++ op.mnemonic⟩]
  | _, _ => []

/-- The records of a step. -/
def stepRecords (m : Machine World) : List Record :=
  if m.cpu.halted then []
  else
    let state := if m.tracing then [⟨.debug, m.summary⟩] else []
    let m := m.markStart
    let opcode := if m.tracing then m.opcodeRecords else []
    let rest :=
      match m.fetched with
      | .prefixes _ length =>
        [⟨.trace, "Prefix run continues past " ++ toString length ++ " bytes"⟩]
      | .undefined _ => []
      | .instruction i length => m.performRecords i length
    state ++ opcode ++ rest

/-- The record of an interrupt that was not served, in the state after it. -/
def unhandledRecord (m : Machine World) (vector : Byte) : Option Byte → Record
  | some function =>
    ⟨.warn, "INT " ++ hexByte vector ++ "h service " ++ hexByte function ++
      "h not implemented at " ++ m.location⟩
  | none => ⟨.warn, "INT " ++ hexByte vector ++ "h has no handler at " ++ m.location⟩

/-- The records of a run that began when the count of steps was `start`, the latest first, in front
of those already known. -/
def runRecordsFrom (start : Nat) : (limit : Nat) → Machine World → List Record → List Record
  | 0, m, known =>
    ⟨.debug, "Instruction limit reached after " ++ toString (m.count - start) ++
      " instructions"⟩ :: known
  | limit + 1, m, known =>
    let known := m.stepRecords.reverse ++ known
    match m.step with
    | (.ok .next, m) => runRecordsFrom start limit m known
    | (.ok (.unhandled vector function), m) =>
      runRecordsFrom start limit m (m.unhandledRecord vector function :: known)
    | (.ok .halted, m) =>
      ⟨.debug, "Halted after " ++ toString (m.count - start) ++ " instructions"⟩ :: known
    | (.ok (.exited code), m) =>
      ⟨.debug, "Exited with status " ++ hexByte code ++ " after " ++ toString (m.count - start) ++
        " instructions"⟩ :: known
    | (.error _, _) => known

/-- The records of a run. -/
def runRecords (m : Machine World) (limit : Option Nat) : List Record :=
  let start := if m.tracing then [⟨.debug, "Tracing Enabled"⟩] else []
  (runRecordsFrom m.count (limit.getD maxSteps) m start).reverse

end I8086.Machine
