import IntegerBasic.Console.Limited
import IntegerBasic.Console.Transcript
import IntegerBasic.Main
import IntegerBasic.Proofs.ExactEvaluation
import IntegerBasic.Proofs.ProgramPath
import IntegerBasic.Proofs.RoundTrip
import IntegerBasic.Proofs.Columns
import IntegerBasic.Proofs.JumpTargets
import IntegerBasic.Proofs.SessionLog
import IntegerBasic.Proofs.EditHistory
import IntegerBasic.Proofs.Reentry
import IntegerBasic.Proofs.StatementShape
import IntegerBasic.Proofs.Comments
import IntegerBasic.Proofs.FiniteInput
import IntegerBasic.Proofs.UnexecutedLines
import IntegerBasic.Proofs.ForwardJumps
import IntegerBasic.Proofs.Correspondence
import IntegerBasic.Proofs.StaleCursor
import IntegerBasic.Proofs.ConsoleCalls
import IntegerBasic.Proofs.Faults
import IntegerBasic.Proofs.DirectExecution
import IntegerBasic.Proofs.CommandLines
import IntegerBasic.Proofs.Answers
import IntegerBasic.Proofs.DefinedNames
import IntegerBasic.Proofs.SessionState
import IntegerBasic.Proofs.ErrorOrigins
import IntegerBasic.Proofs.UnusedVariables
import IntegerBasic.Proofs.FailedStatements
import IntegerBasic.Proofs.Entering
import IntegerBasic.Proofs.FailedCalls
import IntegerBasic.Proofs.LineCutting
import IntegerBasic.Proofs.EntryCalls
import IntegerBasic.Proofs.BatchCourse
import IntegerBasic.Proofs.BatchLines
import IntegerBasic.Proofs.BatchTranscript
import IntegerBasic.Proofs.Asking
import IntegerBasic.Proofs.LexicalRoundTrip
import IntegerBasic.Proofs.BlamedTokens
import IntegerBasic.Proofs.ViablePrefixes
import IntegerBasic.Proofs.ErrorColumns
import IntegerBasic.Proofs.PrintedValues
import IntegerBasic.Proofs.LineNumbers
import IntegerBasic.Proofs.Guarded.Sessions
import IntegerBasic.Proofs.ErrorTexts
