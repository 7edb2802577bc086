import GenericIR.Machine
import GenericIR.Main
import GenericIR.Proofs.AttrLikeness
import GenericIR.Proofs.BlockNames
import GenericIR.Proofs.BranchTargets
import GenericIR.Proofs.CommandGrammar
import GenericIR.Proofs.ConfiguredThresholds
import GenericIR.Proofs.DuplicateSymbols
import GenericIR.Proofs.Erasure
import GenericIR.Proofs.FirstDefinitions
import GenericIR.Proofs.FreshNames
import GenericIR.Proofs.GrowingModules
import GenericIR.Proofs.Indentation
import GenericIR.Proofs.InsertionOrder
import GenericIR.Proofs.OperandTypes
import GenericIR.Proofs.OutputNames
import GenericIR.Proofs.PrintedOutline
import GenericIR.Proofs.PrintedValues
import GenericIR.Proofs.Renaming
import GenericIR.Proofs.RowMajor
import GenericIR.Proofs.RunThresholds
import GenericIR.Proofs.Scoping
import GenericIR.Proofs.SinkHistories
import GenericIR.Proofs.ToolOutcome
import GenericIR.Proofs.TypeComparison
import GenericIR.Proofs.TypeEquality
import GenericIR.Proofs.WalkedLines
import GenericIR.Proofs.FilterTexts
import GenericIR.Proofs.MergedSpans
import GenericIR.Proofs.BuildSessions
import GenericIR.Proofs.QuotedText
