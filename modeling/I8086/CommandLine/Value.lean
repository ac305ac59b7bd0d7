import I8086.CommandLine.Number
import I8086.Dos.Function
import I8086.Hex

/-!
# The values of options

The window size is written `80x25`, the version of the system `3.30` or `3`, and its maker by name
or by number, in decimal or after `0x` in hexadecimal. Letters of names may be in either case.
-/

namespace I8086.CommandLine

/-- The size of a window in characters. -/
structure Window where
  columns : Word
  rows : Word
deriving DecidableEq

/-- A version of the system. -/
structure Version where
  major : Byte
  minor : Byte
deriving DecidableEq

/-- Why a text is no value of its option. -/
inductive ValueError where
  | noSeparator (text : String)
  | columns (e : NumberError)
  | rows (e : NumberError)
  | major (e : NumberError)
  | minor (e : NumberError)
  | unknownOem (text : String)
  | unknownOemNumber (n : Byte)
deriving DecidableEq

/-- The wording of an error. -/
def ValueError.message : ValueError → String
  | noSeparator text => "expected COLUMNSxROWS, got '" ++ text ++ "'"
  | columns e => "columns: " ++ e.message
  | rows e => "rows: " ++ e.message
  | major e => "major version: " ++ e.message
  | minor e => "minor version: " ++ e.message
  | unknownOem text => "unknown OEM '" ++ text ++ "'"
  | unknownOemNumber n => "unknown OEM number 0x" ++ hexByte n

/-- The parts of a text before and after the first character with a property. -/
def splitFirst? (p : Char → Bool) (cs : List Char) : Option (List Char × List Char) :=
  match cs.span fun c => !p c with
  | (before, _ :: after) => some (before, after)
  | (_, []) => none

/-- Reads a number of `n` bits. -/
def parseBits (n radix : Nat) (cs : List Char) : Except NumberError (BitVec n) :=
  (parseUnsigned radix (BitVec.allOnes n).toNat cs).map (BitVec.ofNat n)

/-- Reads a window size. -/
def parseWindow (text : String) : Except ValueError Window :=
  match splitFirst? (fun c => c = 'x' || c = 'X') text.toList with
  | none => .error (.noSeparator text)
  | some (left, right) => do
    let columns ← (parseBits 16 10 left).mapError .columns
    let rows ← (parseBits 16 10 right).mapError .rows
    return { columns, rows }

/-- Reads a version; without a minor number that is zero. -/
def parseVersion (text : String) : Except ValueError Version := do
  let (left, right) := (splitFirst? (· = '.') text.toList).getD (text.toList, ['0'])
  let major ← (parseBits 8 10 left).mapError .major
  let minor ← (parseBits 8 10 right).mapError .minor
  return { major, minor }

/-- The makers by name. -/
def oemNames : List (String × Dos.Oem) :=
  [("ibm", .ibm), ("compaq", .compaq), ("zenith", .zenith), ("att", .att), ("at&t", .att),
    ("microsoft", .microsoft), ("ms", .microsoft)]

/-- The number of a maker, in decimal or hexadecimal. -/
def parseOemNumber (cs : List Char) : Except NumberError Byte :=
  match cs with
  | '0' :: 'x' :: digits => parseBits 8 16 digits
  | digits => parseBits 8 10 digits

/-- Reads a maker. -/
def parseOem (text : String) : Except ValueError Dos.Oem :=
  let cs := text.toList.map Char.toLower
  match oemNames.find? fun (name, _) => name.toList = cs with
  | some (_, oem) => .ok oem
  | none =>
    match parseOemNumber cs with
    | .error _ => .error (.unknownOem text)
    | .ok n =>
      match Dos.Oem.ofNumber? n.toNat with
      | some oem => .ok oem
      | none => .error (.unknownOemNumber n)

end I8086.CommandLine
