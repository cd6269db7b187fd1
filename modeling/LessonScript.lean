import LessonScript.Editor.Highlight
import LessonScript.Main
import LessonScript.Program.Assembly
import LessonScript.Token.Stream
import LessonScript.Proofs.References
import LessonScript.Proofs.StackShape
import LessonScript.Proofs.CallResults
import LessonScript.Proofs.Instructions
import LessonScript.Proofs.SoundRun
import LessonScript.Proofs.LexerSteps
import LessonScript.Proofs.TokenPlaces
import LessonScript.Proofs.Layout
import LessonScript.Proofs.TokenLines
import LessonScript.Proofs.LineLayout
import LessonScript.Proofs.Grammar
import LessonScript.Proofs.ExprReading
import LessonScript.Proofs.StmtReading
import LessonScript.Proofs.ExprAccepted
import LessonScript.Proofs.StmtAccepted
import LessonScript.Proofs.Acceptance
import LessonScript.Proofs.ExprRun
import LessonScript.Proofs.StmtRun
import LessonScript.Proofs.Execution
import LessonScript.Proofs.ExprExecution
import LessonScript.Proofs.ResultForms
import LessonScript.Proofs.ValueInvariants
import LessonScript.Proofs.HostCalls
import LessonScript.Proofs.ListingReading
import LessonScript.Proofs.Confinement
import LessonScript.Proofs.RunSteps
import LessonScript.Proofs.Failures
import LessonScript.Proofs.RunLimits
import LessonScript.Proofs.Digits
import LessonScript.Proofs.FloatText
import LessonScript.Proofs.CompiledListing
import LessonScript.Proofs.LiteralLexing
import LessonScript.Proofs.LiteralRoundTrip
import LessonScript.Proofs.IntegerArithmetic
import LessonScript.Proofs.TextSizes
import LessonScript.Proofs.TextBounds
import LessonScript.Proofs.TokenText
import LessonScript.Proofs.OpenParens
import LessonScript.Proofs.BlockIndentation
import LessonScript.Proofs.Extremes
import LessonScript.Proofs.IntegerRounding
import LessonScript.Proofs.RefusalPlaces
import LessonScript.Proofs.FaultPlaces
import LessonScript.Proofs.QuotedTexts
import LessonScript.Proofs.TokenSpacing
import LessonScript.Proofs.SilentLines
import LessonScript.Proofs.CodeLines
import LessonScript.Proofs.ConsoleTranscript
import LessonScript.Proofs.EditorHistory
import LessonScript.Proofs.LoadedText
import LessonScript.Proofs.SugarExpansion
import LessonScript.Proofs.Comparisons
import LessonScript.Proofs.HighlightedLine
import LessonScript.Proofs.OperandTables
import LessonScript.Proofs.BoundedStack
import LessonScript.Proofs.NameBindings
