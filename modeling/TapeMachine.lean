import TapeMachine.Main
import TapeMachine.Proofs.FaultSafety
import TapeMachine.Proofs.LabelElimination
import TapeMachine.Proofs.Listing
import TapeMachine.Proofs.InstructionRules
import TapeMachine.Proofs.Runs
import TapeMachine.Proofs.TickLimit
import TapeMachine.Proofs.JumpTargets
import TapeMachine.Proofs.Sessions
import TapeMachine.Proofs.EquateScope
import TapeMachine.Proofs.ExpandedWords
import TapeMachine.Proofs.LocalLabels
import TapeMachine.Proofs.TextParts
import TapeMachine.Proofs.NameTokens
import TapeMachine.Proofs.ReadNames
import TapeMachine.Proofs.ParsedNames
import TapeMachine.Proofs.UnreadNumbers
import TapeMachine.Proofs.LineNumbers
import TapeMachine.Proofs.MacroDefinitions
import TapeMachine.Proofs.Inlining
import TapeMachine.Proofs.Relocation
import TapeMachine.Proofs.ForwardJumps
import TapeMachine.Proofs.Reruns
import TapeMachine.Proofs.UnreadRegisters
import TapeMachine.Proofs.UsableOperands
import TapeMachine.Proofs.Footprint
import TapeMachine.Proofs.LabelDefects
import TapeMachine.Assembler.Round
import TapeMachine.Proofs.Reuse
import TapeMachine.Proofs.WordArithmetic
import TapeMachine.Proofs.LoadAfterStore
import TapeMachine.Proofs.ConditionalJumps
import TapeMachine.Proofs.IndirectWords
import TapeMachine.Proofs.Visits
import TapeMachine.Proofs.SourceMap
import TapeMachine.Proofs.Traceback
import TapeMachine.Proofs.CrashSafety
import TapeMachine.Proofs.Identifiers
import TapeMachine.Proofs.SimpleExpressions
import TapeMachine.Proofs.NumberSpellings
import TapeMachine.Proofs.Seeding
import TapeMachine.Proofs.Traces
import TapeMachine.Proofs.PrintedListing
import TapeMachine.Proofs.StateText
import TapeMachine.Proofs.CharacterConstants
