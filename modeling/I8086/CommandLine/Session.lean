import I8086.CommandLine.Arguments
import I8086.Dos.Services
import I8086.Machine

/-!
# A session from the command line

The options and the program's bytes determine a machine with the system's services, whose output
begins with the control sequences for the window. Running it gives the output and the exit status:
the program's own code, zero if it halts, and one for everything that stops it from outside.
-/

namespace I8086.CommandLine

/-- The bytes of a text. -/
def encode (text : String) : List Byte := text.toUTF8.toList.map UInt8.toBitVec

/-- The control sequence that sets the window's title. -/
def titleSequence (title : String) : List Byte := encode ("\x1b]0;" ++ title ++ "\x07")

/-- The control sequence that sets the window's size, rows first. -/
def windowSequence (w : Window) : List Byte :=
  encode ("\x1b[8;" ++ toString w.rows.toNat ++ ";" ++ toString w.columns.toNat ++ "t")

/-- The output before the program starts. -/
def preamble (options : Options) : List Byte :=
  (options.title.map titleSequence).getD [] ++ (options.window.map windowSequence).getD []

/-- What the version function reports; zero if the options do not say. -/
def config (options : Options) : Dos.Config :=
  let version := options.version.getD ⟨0, 0⟩
  { major := version.major, minor := version.minor, oem := options.oem.getD .ibm }

/-- The world of a session: an output without a keyboard. -/
abbrev World := Dos.Terminal OutputOnly

/-- The machine before the program is loaded. -/
def machine (options : Options) : Machine World :=
  let start : Machine World :=
    { world := ⟨⟨(preamble options).toArray⟩, none⟩, tracing := options.tracing }
  start.registerHandler Dos.terminateVector Dos.serviceVector
    (Dos.handler OutputOnly (config options))

/-- An exit status and the bytes written until then. -/
structure Report where
  status : Nat
  output : List Byte
deriving DecidableEq

/-- The exit status of a run. -/
def exitStatus : Except Fault Outcome → Nat
  | .ok (.exited code) => code.toNat
  | .ok .halted => 0
  | .ok .limitReached => 1
  | .error _ => 1

/-- The report of a machine and its result. -/
def Report.of (result : Except Fault Outcome × Machine World) : Report :=
  ⟨exitStatus result.1, result.2.world.console.output.toList⟩

/-- Runs a program. -/
def run (options : Options) (program : List Byte) : Report :=
  let m := machine options
  match m.loadProgram program with
  | .ok m => .of (m.run options.maxInstructions)
  | .error fault => .of (.error fault, m)

/-- The answer to a request for the version. -/
def versionText : String := "dos86 0.1.0\n"

/-- The answer to a request for help. -/
def helpText : String :=
  String.join
    ["8086 emulator for DOS .COM programs\n\n",
      "Usage: dos86 [OPTIONS] <PROGRAM>\n\n",
      "Options:\n",
      "  --trace                   Log every instruction with the register state\n",
      "  --max-instructions <N>    Stop after this many instructions\n",
      "  --title <TITLE>           Title of the terminal window\n",
      "  --window <COLUMNSxROWS>   Size of the terminal window\n",
      "  --dos-version <VERSION>   Version that the system reports\n",
      "  --oem <OEM>               Maker that the system reports\n",
      "  -h, --help                Print help\n",
      "  -V, --version             Print version\n"]

/-- The report of a command line that is not carried out. -/
def Usage.report : Usage → Report
  | .help => ⟨0, encode helpText⟩
  | .version => ⟨0, encode versionText⟩
  | _ => ⟨2, []⟩

/-- The report of a program file that cannot be read. -/
def unreadable : Report := ⟨1, []⟩

/-- Carries out a command line, with `file` giving the contents of the files that can be read. -/
def execute (arguments : List String) (file : String → Option (List Byte)) : Report :=
  match parse arguments with
  | .error usage => usage.report
  | .ok options =>
    match file options.program with
    | none => unreadable
    | some program => run options program

end I8086.CommandLine
