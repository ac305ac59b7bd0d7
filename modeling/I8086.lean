import I8086.Main
import I8086.Journal
import I8086.Keyboard
import I8086.Proofs.Rejection
import I8086.Proofs.PrefixRun
import I8086.Proofs.InstructionPointer
import I8086.Proofs.Checked.Step
import I8086.Proofs.Checked.Run
import I8086.Proofs.Stack
import I8086.Proofs.Dispatch
import I8086.Proofs.Nesting
import I8086.Proofs.KeyQueue
import I8086.Proofs.Undefined
import I8086.Proofs.Confinement
import I8086.Proofs.Agreement
import I8086.Proofs.SameOperation
import I8086.Proofs.FlagWord
import I8086.Proofs.History
import I8086.Proofs.Comparison
import I8086.Proofs.FlagFrame
import I8086.Proofs.Loading
import I8086.Proofs.DecimalArithmetic
import I8086.Proofs.ShiftSteps
import I8086.Proofs.MultiplyDivide
import I8086.Proofs.BlockTransfer
import I8086.Proofs.StringSearch
import I8086.Proofs.PrefixReach
import I8086.Proofs.ConsoleFailure
import I8086.Proofs.LinearMemory
import I8086.Proofs.OptionValues
import I8086.Proofs.CountedLoop
import I8086.Proofs.StackOrder
import I8086.Proofs.SegmentedMemory
