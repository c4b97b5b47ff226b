import BasicMachine.Main
import BasicMachine.Terminal
import BasicMachine.Proofs.Conditional
import BasicMachine.Proofs.CountedLoops
import BasicMachine.Proofs.LabelSearch
import BasicMachine.Proofs.LoopStack
import BasicMachine.Proofs.MemoryGrowth
import BasicMachine.Proofs.NameStability
import BasicMachine.Proofs.NestedConditional
import BasicMachine.Proofs.ProgramEnd
import BasicMachine.Proofs.ProgramRun
import BasicMachine.Proofs.StringStore
import BasicMachine.Proofs.Subroutines
import BasicMachine.Proofs.SymbolLoss
import BasicMachine.Proofs.ScreenOperations
import BasicMachine.Proofs.Scrolling
import BasicMachine.Proofs.ArgumentReading
import BasicMachine.Proofs.FlowFaults
import BasicMachine.Proofs.ArgumentLooks
import BasicMachine.Proofs.DiskPaths
import BasicMachine.Proofs.Likeness
import BasicMachine.Proofs.CommandLikeness
import BasicMachine.Proofs.PromptLikeness
import BasicMachine.Proofs.ConditionalCommand
import BasicMachine.Proofs.LastLine
import BasicMachine.Proofs.FinalNewline
import BasicMachine.Proofs.Expressions
import BasicMachine.Proofs.AssignedValues
import BasicMachine.Proofs.Alternatives
import BasicMachine.Proofs.DialogDrawing
import BasicMachine.Proofs.ListChoice
import BasicMachine.Proofs.CanonicalNames
import BasicMachine.Proofs.RenamedFiles
import BasicMachine.Proofs.IncludedFiles
import BasicMachine.Proofs.DecodingFaults
import BasicMachine.Proofs.FileListing
import BasicMachine.Proofs.Remarks
import BasicMachine.Proofs.LabelJumps
import BasicMachine.Proofs.WordStores
import BasicMachine.Proofs.StringBytes
import BasicMachine.Proofs.FreeMemory
import BasicMachine.Proofs.InkColour
import BasicMachine.Proofs.DataLines
import BasicMachine.Proofs.DiskReports
import BasicMachine.Proofs.PrintedText
import BasicMachine.Proofs.AddressArguments
import BasicMachine.Proofs.CaseOfWords
import BasicMachine.Proofs.TerminalKeys
import BasicMachine.Proofs.TypedLines
import BasicMachine.Proofs.ArgumentBounds
import BasicMachine.Proofs.SplitConservation
