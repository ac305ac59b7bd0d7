import I8086.CommandLine.Value

/-!
# The arguments of the command line

One argument names the program; options stand before or after it. An option that takes a value has
it attached after an equals sign or in the next argument. After a double dash nothing is an option
any more.

Arguments are taken from the left. A value, or the program's name, is looked at only when the next
argument settles that it is complete; so of two errors usually the one further left is reported.
An argument that is no option at all is reported before what it leaves unsettled.
-/

namespace I8086.CommandLine

/-- What a command line asks for. -/
structure Options where
  program : String
  tracing : Bool := false
  maxInstructions : Option Nat := none
  title : Option String := none
  window : Option Window := none
  version : Option Version := none
  oem : Option Dos.Oem := none
deriving DecidableEq

/-- Why a command line is not carried out. The last two are requests for information. -/
inductive Usage where
  | invalidValue
  | argumentConflict
  | valueValidation
  | unknownArgument
  | tooManyValues
  | missingProgram
  | help
  | version
deriving DecidableEq

/-- The options that take a value. -/
inductive ValueOption where
  | maxInstructions | title | window | version | oem
deriving DecidableEq

/-- What the name of an option means. -/
inductive OptionName where
  | value (o : ValueOption)
  | tracing
  | help
  | version
deriving DecidableEq

/-- The options by their long names. -/
def OptionName.ofLong? : String → Option OptionName
  | "max-instructions" => some (.value .maxInstructions)
  | "title" => some (.value .title)
  | "window" => some (.value .window)
  | "dos-version" => some (.value .version)
  | "oem" => some (.value .oem)
  | "trace" => some .tracing
  | "help" => some .help
  | "version" => some .version
  | _ => none

/-- The options by their letters. -/
def OptionName.ofLetter? : Char → Option OptionName
  | 'h' => some .help
  | 'V' => some .version
  | _ => none

/-- The form of an argument. -/
inductive Argument where
  /-- The double dash. -/
  | escape
  /-- A long option, with a value that is attached to it. -/
  | long (name : String) (value : Option String)
  /-- The letters of short options. -/
  | short (letters : List Char)
  | plain (text : String)
deriving DecidableEq

/-- The form of a text. A lone dash is no option. -/
def Argument.ofText (text : String) : Argument :=
  match text.toList with
  | ['-', '-'] => escape
  | '-' :: '-' :: cs =>
    match splitFirst? (· = '=') cs with
    | some (name, value) => long (String.ofList name) (some (String.ofList value))
    | none => long (String.ofList cs) none
  | ['-'] => plain text
  | '-' :: cs => short cs
  | _ => plain text

/-- A value that has not been looked at yet, or is still to come. -/
inductive Unsettled where
  | program (text : String)
  | option (o : ValueOption) (value : Option String)
deriving DecidableEq

/-- What has been taken from the arguments so far. -/
structure Progress where
  program : Option String := none
  options : Options := { program := "" }
  unsettled : Option Unsettled := none
  /-- The program has been named, whether or not its name has been looked at. -/
  named : Bool := false
  /-- A double dash has been seen. -/
  escaped : Bool := false

namespace Progress

/-- Whether an option has its value already. -/
def has (p : Progress) : ValueOption → Bool
  | .maxInstructions => p.options.maxInstructions.isSome
  | .title => p.options.title.isSome
  | .window => p.options.window.isSome
  | .version => p.options.version.isSome
  | .oem => p.options.oem.isSome

/-- The largest number of instructions, which has 64 bits. -/
def maxLimit : Nat := (BitVec.allOnes 64).toNat

/-- Reads the value of an option into the options. -/
def readValue (options : Options) (o : ValueOption) (text : String) : Option Options :=
  match o with
  | .maxInstructions =>
    (parseUnsigned 10 maxLimit text.toList).toOption.map fun n =>
      { options with maxInstructions := some n }
  | .title => some { options with title := some text }
  | .window => (parseWindow text).toOption.map fun w => { options with window := some w }
  | .version => (parseVersion text).toOption.map fun v => { options with version := some v }
  | .oem => (parseOem text).toOption.map fun oem => { options with oem := some oem }

/-- Gives an option its value, which has to be there, to be the only one, and to be readable. -/
def assign (p : Progress) (o : ValueOption) (value : Option String) : Except Usage Progress :=
  match value with
  | none => .error .invalidValue
  | some text =>
    if p.has o then .error .argumentConflict
    else
      match readValue p.options o text with
      | some options => .ok { p with options }
      | none => .error .valueValidation

/-- Looks at what has been left unsettled. The program's name must not be empty. -/
def settle (p : Progress) : Except Usage Progress :=
  match p.unsettled with
  | none => .ok p
  | some (.program text) =>
    if text = "" then .error .invalidValue
    else .ok { p with unsettled := none, program := some text }
  | some (.option o value) => ({ p with unsettled := none }).assign o value

/-- An option that takes no value. -/
def flag (p : Progress) (name : OptionName) : Except Usage Progress := do
  let p ← p.settle
  match name with
  | .tracing =>
    if p.options.tracing then .error .argumentConflict
    else .ok { p with options := { p.options with tracing := true } }
  | .help => .error .help
  | .version => .error .version
  | .value o => .ok { p with unsettled := some (.option o none) }

/-- A long option. -/
def long (p : Progress) (name : String) (value : Option String) : Except Usage Progress :=
  match OptionName.ofLong? name, value with
  | none, _ => .error .unknownArgument
  | some (.value o), some text => do
    let p ← p.settle
    p.assign o (some text)
  | some _, some _ => .error .tooManyValues
  | some name, none => p.flag name

/-- Short options, one letter after the other. -/
def short (p : Progress) : List Char → Except Usage Progress
  | [] => .ok p
  | c :: cs =>
    match OptionName.ofLetter? c with
    | none => .error .unknownArgument
    | some name => do
      let p ← p.flag name
      p.short cs

/-- An argument that names the program. There is only one. -/
def positional (p : Progress) (text : String) : Except Usage Progress :=
  if p.named then .error .unknownArgument
  else do
    let p ← p.settle
    return { p with unsettled := some (.program text), named := true }

/-- Takes one argument. -/
def take (p : Progress) (text : String) : Except Usage Progress :=
  if p.escaped then p.positional text
  else
    match Argument.ofText text with
    | .escape => .ok { p with escaped := true }
    | .long name value => p.long name value
    | .short letters => p.short letters
    | .plain text =>
      match p.unsettled with
      | some (.option o none) => .ok { p with unsettled := some (.option o (some text)) }
      | _ => p.positional text

end Progress

/-- Reads the arguments. -/
def parse (arguments : List String) : Except Usage Options := do
  let p ← arguments.foldlM Progress.take {}
  let p ← p.settle
  match p.program with
  | some program => return { p.options with program }
  | none => .error .missingProgram

end I8086.CommandLine
