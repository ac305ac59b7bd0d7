import I8086.Opcode

/-!
# The text of an opcode

Two forms. The mnemonic is what a trace line shows: the assembly name, with the register if the
opcode byte itself names one. The description spells out every field.
-/

namespace I8086

namespace AluOp

/-- The assembly name. -/
def mnemonic : AluOp → String
  | add => "ADD"
  | or => "OR"
  | adc => "ADC"
  | sbb => "SBB"
  | and => "AND"
  | sub => "SUB"
  | xor => "XOR"
  | cmp => "CMP"

/-- The name in a description. -/
def description : AluOp → String
  | add => "Add"
  | or => "Or"
  | adc => "Adc"
  | sbb => "Sbb"
  | and => "And"
  | sub => "Sub"
  | xor => "Xor"
  | cmp => "Cmp"

end AluOp

namespace Width

/-- The letter that ends the name of a string instruction. -/
def suffix : Width → String
  | byte => "B"
  | word => "W"

/-- The name in a description. -/
def description : Width → String
  | byte => "Byte"
  | word => "Word"

end Width

namespace Condition

/-- The assembly name of the jump on the condition or on its opposite. -/
def mnemonic (negated : Bool) : Condition → String
  | overflow => if negated then "JNO" else "JO"
  | below => if negated then "JNB" else "JB"
  | zero => if negated then "JNZ" else "JZ"
  | belowOrEqual => if negated then "JA" else "JBE"
  | sign => if negated then "JNS" else "JS"
  | parity => if negated then "JNP" else "JP"
  | less => if negated then "JGE" else "JL"
  | lessOrEqual => if negated then "JG" else "JLE"

/-- The name in a description. -/
def description : Condition → String
  | overflow => "Overflow"
  | below => "Below"
  | zero => "Zero"
  | belowOrEqual => "BelowOrEqual"
  | sign => "Sign"
  | parity => "Parity"
  | less => "Less"
  | lessOrEqual => "LessOrEqual"

end Condition

namespace StringOp

/-- The assembly name without the letter for the width. -/
def mnemonic : StringOp → String
  | movs => "MOVS"
  | cmps => "CMPS"
  | stos => "STOS"
  | lods => "LODS"
  | scas => "SCAS"

/-- The name in a description. -/
def description : StringOp → String
  | movs => "Movs"
  | cmps => "Cmps"
  | stos => "Stos"
  | lods => "Lods"
  | scas => "Scas"

end StringOp

namespace LoopKind

/-- The assembly name. -/
def mnemonic : LoopKind → String
  | whileNotZero => "LOOPNZ"
  | whileZero => "LOOPZ"
  | always => "LOOP"

/-- The name in a description. -/
def description : LoopKind → String
  | whileNotZero => "WhileNotZero"
  | whileZero => "WhileZero"
  | always => "Always"

end LoopKind

/-- A description with named fields. -/
def describeRecord (name : String) (fields : List (String × String)) : String :=
  name ++ " \x7b " ++ ", ".intercalate (fields.map fun (k, v) => k ++ ": " ++ v) ++ " \x7d"

/-- A description with one unnamed field. -/
def describeField (name field : String) : String := name ++ "(" ++ field ++ ")"

namespace Opcode

/-- The assembly name, with the register that the byte itself names. -/
def mnemonic : Opcode → String
  | segmentOverride s => s.name ++ ":"
  | repeatString .whileZero => "REPZ"
  | repeatString .whileNotZero => "REPNZ"
  | lock => "LOCK"
  | alu op _ _ | aluAccumulator op _ => op.mnemonic
  | aluGroup _ _ => "GRP1"
  | test _ | testAccumulator _ => "TEST"
  | incRegister n => "INC " ++ n.wordName
  | decRegister n => "DEC " ++ n.wordName
  | unaryGroup _ => "GRP3"
  | stepGroup => "GRP4"
  | indirectGroup => "GRP5"
  | daa => "DAA"
  | das => "DAS"
  | aaa => "AAA"
  | aas => "AAS"
  | aam => "AAM"
  | aad => "AAD"
  | cbw => "CBW"
  | cwd => "CWD"
  | shiftGroup _ _ => "GRP2"
  | mov _ _ | movFromSegment | movToSegment | movImmediateGroup _ | movAccumulator _ _ => "MOV"
  | movImmediate .byte n => "MOV " ++ n.byteName
  | movImmediate .word n => "MOV " ++ n.wordName
  | xchg _ => "XCHG"
  | xchgAccumulator n => if n = .accumulator then "NOP" else "XCHG AX," ++ n.wordName
  | lea => "LEA"
  | les => "LES"
  | lds => "LDS"
  | lahf => "LAHF"
  | sahf => "SAHF"
  | xlat => "XLAT"
  | input _ _ => "IN"
  | output _ _ => "OUT"
  | pushRegister n => "PUSH " ++ n.wordName
  | popRegister n => "POP " ++ n.wordName
  | pushSegment s => "PUSH " ++ s.name
  | popSegment s => "POP " ++ s.name
  | popGroup => "POP"
  | pushf => "PUSHF"
  | popf => "POPF"
  | jumpIf c negated => c.mnemonic negated
  | loop kind => kind.mnemonic
  | jcxz => "JCXZ"
  | jumpShort | jumpNear | jumpFar => "JMP"
  | callNear | callFar => "CALL"
  | ret false _ => "RET"
  | ret true _ => "RETF"
  | int3 => "INT3"
  | int => "INT"
  | into => "INTO"
  | iret => "IRET"
  | string op w => op.mnemonic ++ w.suffix
  | clc => "CLC"
  | stc => "STC"
  | cmc => "CMC"
  | cli => "CLI"
  | sti => "STI"
  | cld => "CLD"
  | std => "STD"
  | wait => "WAIT"
  | esc => "ESC"
  | hlt => "HLT"

/-- The operation with all its fields. -/
def description : Opcode → String
  | segmentOverride s => describeField "SegmentOverride" s.name
  | repeatString r => describeRecord "Rep" [("zero", toString (r == .whileZero))]
  | lock => "Lock"
  | alu op w toRegister =>
      describeRecord "AluRm"
        [("op", op.description), ("width", w.description), ("to_reg", toString toRegister)]
  | aluAccumulator op w =>
      describeRecord "AluAccImm" [("op", op.description), ("width", w.description)]
  | aluGroup w signExtended =>
      describeRecord "AluGroup" [("width", w.description), ("sign_extend", toString signExtended)]
  | test w => describeRecord "TestRm" [("width", w.description)]
  | testAccumulator w => describeRecord "TestAccImm" [("width", w.description)]
  | incRegister n => describeField "IncReg" (toString n.val)
  | decRegister n => describeField "DecReg" (toString n.val)
  | unaryGroup w => describeRecord "Group3" [("width", w.description)]
  | stepGroup => "Group4"
  | indirectGroup => "Group5"
  | daa => "Daa"
  | das => "Das"
  | aaa => "Aaa"
  | aas => "Aas"
  | aam => "Aam"
  | aad => "Aad"
  | cbw => "Cbw"
  | cwd => "Cwd"
  | shiftGroup w byCl =>
      describeRecord "Shift" [("width", w.description), ("by_cl", toString byCl)]
  | mov w toRegister =>
      describeRecord "MovRm" [("width", w.description), ("to_reg", toString toRegister)]
  | movFromSegment => "MovFromSeg"
  | movToSegment => "MovToSeg"
  | movImmediate w n =>
      describeRecord "MovRegImm" [("width", w.description), ("reg", toString n.val)]
  | movImmediateGroup w => describeRecord "MovRmImm" [("width", w.description)]
  | movAccumulator w toAccumulator =>
      describeRecord "MovAccMem" [("width", w.description), ("to_acc", toString toAccumulator)]
  | xchg w => describeRecord "XchgRm" [("width", w.description)]
  | xchgAccumulator n => describeField "XchgAcc" (toString n.val)
  | lea => "Lea"
  | les => "Les"
  | lds => "Lds"
  | lahf => "Lahf"
  | sahf => "Sahf"
  | xlat => "Xlat"
  | input w fromDx => describeRecord "In" [("width", w.description), ("from_dx", toString fromDx)]
  | output w toDx => describeRecord "Out" [("width", w.description), ("to_dx", toString toDx)]
  | pushRegister n => describeField "PushReg" (toString n.val)
  | popRegister n => describeField "PopReg" (toString n.val)
  | pushSegment s => describeField "PushSeg" s.name
  | popSegment s => describeField "PopSeg" s.name
  | popGroup => "PopRm"
  | pushf => "Pushf"
  | popf => "Popf"
  | jumpIf c negated =>
      describeRecord "Jcc" [("condition", c.description), ("negate", toString negated)]
  | loop kind => describeField "Loop" kind.description
  | jcxz => "Jcxz"
  | jumpShort => "JmpShort"
  | jumpNear => "JmpNear"
  | jumpFar => "JmpFar"
  | callNear => "CallNear"
  | callFar => "CallFar"
  | ret far releasing =>
      describeRecord "Ret" [("far", toString far), ("pop", toString releasing)]
  | int3 => "Int3"
  | int => "Int"
  | into => "Into"
  | iret => "Iret"
  | string op w => describeRecord "String" [("op", op.description), ("width", w.description)]
  | clc => "Clc"
  | stc => "Stc"
  | cmc => "Cmc"
  | cli => "Cli"
  | sti => "Sti"
  | cld => "Cld"
  | std => "Std"
  | wait => "Wait"
  | esc => "Esc"
  | hlt => "Hlt"

end Opcode

end I8086
