import I8086.Word

/-!
# The numbers of the operating system

Functions of interrupt 21h are numbered by AH. Only some are served here, but a number that is
one of the system's functions is told apart from one that is not. Makers of the system have
numbers of their own, which the version function reports.
-/

namespace I8086.Dos

/-- The functions of interrupt 21h. -/
inductive Function where
  | programTerminate | characterInput | characterOutput | auxiliaryInput | auxiliaryOutput
  | printerOutput | directConsoleIo | directConsoleInput | consoleInputNoEcho | displayString
  | bufferedInput | inputStatus | flushAndInput | diskReset | selectDisk | openFcb | closeFcb
  | findFirstFcb | findNextFcb | deleteFcb | sequentialRead | sequentialWrite | createFcb
  | renameFcb | currentDisk | setDta | randomRead | randomWrite | setVector | createPsp
  | getDate | setDate | getTime | setTime | setVerify | getDta | getVersion | keepProcess
  | ctrlBreak | getVector | freeSpace | countryInfo | makeDirectory | removeDirectory
  | changeDirectory | createFile | openFile | closeFile | readFile | writeFile | deleteFile
  | seek | fileAttributes | ioctl | duplicateHandle | forceDuplicate | currentDirectory
  | allocate | free | resize | exec | terminate | returnCode | findFirst | findNext
  | getVerify | renameFile | fileTime
deriving DecidableEq

namespace Function

/-- Every function with its number and its name, by ascending number. -/
def table : List (Nat × Function × String) :=
  [(0x00, programTerminate, "ProgramTerminate"),
    (0x01, characterInput, "CharacterInput"),
    (0x02, characterOutput, "CharacterOutput"),
    (0x03, auxiliaryInput, "AuxiliaryInput"),
    (0x04, auxiliaryOutput, "AuxiliaryOutput"),
    (0x05, printerOutput, "PrinterOutput"),
    (0x06, directConsoleIo, "DirectConsoleIo"),
    (0x07, directConsoleInput, "DirectConsoleInput"),
    (0x08, consoleInputNoEcho, "ConsoleInputNoEcho"),
    (0x09, displayString, "DisplayString"),
    (0x0A, bufferedInput, "BufferedInput"),
    (0x0B, inputStatus, "InputStatus"),
    (0x0C, flushAndInput, "FlushAndInput"),
    (0x0D, diskReset, "DiskReset"),
    (0x0E, selectDisk, "SelectDisk"),
    (0x0F, openFcb, "OpenFcb"),
    (0x10, closeFcb, "CloseFcb"),
    (0x11, findFirstFcb, "FindFirstFcb"),
    (0x12, findNextFcb, "FindNextFcb"),
    (0x13, deleteFcb, "DeleteFcb"),
    (0x14, sequentialRead, "SequentialRead"),
    (0x15, sequentialWrite, "SequentialWrite"),
    (0x16, createFcb, "CreateFcb"),
    (0x17, renameFcb, "RenameFcb"),
    (0x19, currentDisk, "CurrentDisk"),
    (0x1A, setDta, "SetDta"),
    (0x21, randomRead, "RandomRead"),
    (0x22, randomWrite, "RandomWrite"),
    (0x25, setVector, "SetVector"),
    (0x26, createPsp, "CreatePsp"),
    (0x2A, getDate, "GetDate"),
    (0x2B, setDate, "SetDate"),
    (0x2C, getTime, "GetTime"),
    (0x2D, setTime, "SetTime"),
    (0x2E, setVerify, "SetVerify"),
    (0x2F, getDta, "GetDta"),
    (0x30, getVersion, "GetVersion"),
    (0x31, keepProcess, "KeepProcess"),
    (0x33, ctrlBreak, "CtrlBreak"),
    (0x35, getVector, "GetVector"),
    (0x36, freeSpace, "FreeSpace"),
    (0x38, countryInfo, "CountryInfo"),
    (0x39, makeDirectory, "MakeDirectory"),
    (0x3A, removeDirectory, "RemoveDirectory"),
    (0x3B, changeDirectory, "ChangeDirectory"),
    (0x3C, createFile, "CreateFile"),
    (0x3D, openFile, "OpenFile"),
    (0x3E, closeFile, "CloseFile"),
    (0x3F, readFile, "ReadFile"),
    (0x40, writeFile, "WriteFile"),
    (0x41, deleteFile, "DeleteFile"),
    (0x42, seek, "Seek"),
    (0x43, fileAttributes, "FileAttributes"),
    (0x44, ioctl, "Ioctl"),
    (0x45, duplicateHandle, "DuplicateHandle"),
    (0x46, forceDuplicate, "ForceDuplicate"),
    (0x47, currentDirectory, "CurrentDirectory"),
    (0x48, allocate, "Allocate"),
    (0x49, free, "Free"),
    (0x4A, resize, "Resize"),
    (0x4B, exec, "Exec"),
    (0x4C, terminate, "Terminate"),
    (0x4D, returnCode, "ReturnCode"),
    (0x4E, findFirst, "FindFirst"),
    (0x4F, findNext, "FindNext"),
    (0x54, getVerify, "GetVerify"),
    (0x56, renameFile, "RenameFile"),
    (0x57, fileTime, "FileTime")]

/-- The function with a number. -/
def ofNumber? (n : Nat) : Option Function := (table.find? (·.1 = n)).map (·.2.1)

/-- The name of a function. -/
def name (f : Function) : String := ((table.find? (·.2.1 = f)).map (·.2.2)).getD ""

end Function

/-- The makers of the system that have a number. -/
inductive Oem where
  | ibm | compaq | zenith | att | microsoft
deriving DecidableEq

namespace Oem

/-- The number that the version function reports. -/
def number : Oem → Byte
  | ibm => 0x00
  | compaq => 0x01
  | zenith => 0x05
  | att => 0x0C
  | microsoft => 0xFF

/-- The name of a maker. -/
def name : Oem → String
  | ibm => "Ibm"
  | compaq => "Compaq"
  | zenith => "Zenith"
  | att => "Att"
  | microsoft => "Microsoft"

/-- The maker with a number. -/
def ofNumber? (n : Nat) : Option Oem :=
  [ibm, compaq, zenith, att, microsoft].find? fun o => o.number.toNat = n

end Oem

end I8086.Dos
