import I8086.CommandLine.Session

/-!
# The program

Reads the arguments and the program file, runs the session in portions and writes what each
portion has put out. Cutting a run into portions does not change it.
-/

namespace I8086.CommandLine

/-- The number of steps between two writes. -/
def portion : Nat := 0x10000

/-- Writes bytes to the standard output. -/
def emit (bytes : Array Byte) : IO Unit := do
  let out ← IO.getStdout
  out.write ⟨bytes.map UInt8.ofBitVec⟩
  out.flush

/-- Runs a machine within a budget of steps and gives the exit status. -/
partial def drive (m : Machine World) (budget : Option Nat) : IO UInt32 := do
  let steps := (budget.map (min portion)).getD portion
  let (result, m) := m.run (some steps)
  emit m.world.console.output
  let m := { m with world.console := {} }
  match result, budget.map (· - steps) with
  | .ok .limitReached, none => drive m none
  | .ok .limitReached, some (left + 1) => drive m (some (left + 1))
  | result, _ => return (exitStatus result).toUInt32

/-- Runs a program file as the options say. -/
def start (options : Options) : IO UInt32 := do
  match ← (IO.FS.readBinFile options.program).toBaseIO with
  | .error _ => return unreadable.status.toUInt32
  | .ok contents =>
    let m := machine options
    match m.loadProgram (contents.toList.map UInt8.toBitVec) with
    | .ok m => drive m options.maxInstructions
    | .error fault =>
      emit m.world.console.output
      IO.eprintln fault.message
      return (exitStatus (.error fault)).toUInt32

end I8086.CommandLine

open I8086.CommandLine in
/-- Carries out a command line. -/
def main (arguments : List String) : IO UInt32 := do
  match parse arguments with
  | .ok options => start options
  | .error usage =>
    emit usage.report.output.toArray
    return usage.report.status.toUInt32
