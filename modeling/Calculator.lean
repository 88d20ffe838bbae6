import Calculator.Arithmetic
import Calculator.CommandLine.Request
import Calculator.CommandLine.Response
import Calculator.Cursor
import Calculator.Evaluation
import Calculator.Event
import Calculator.Failure
import Calculator.Failure.Description
import Calculator.Grammar
import Calculator.Grammar.Descent
import Calculator.Grammar.Level
import Calculator.Grammar.Outcome
import Calculator.Lexeme
import Calculator.Main
import Calculator.Numeral
import Calculator.Proofs.Decimal
import Calculator.Proofs.Displacement
import Calculator.Proofs.Exactness
import Calculator.Proofs.Extent
import Calculator.Proofs.Extent.Failures
import Calculator.Proofs.Extent.Rules
import Calculator.Proofs.Layout
import Calculator.Proofs.LeadingMinuses
import Calculator.Proofs.Listing
import Calculator.Proofs.Literal
import Calculator.Proofs.Locality
import Calculator.Proofs.Log
import Calculator.Proofs.Machine
import Calculator.Proofs.Machine.Control
import Calculator.Proofs.Machine.Prefix
import Calculator.Proofs.Machine.Simulation
import Calculator.Proofs.Marks
import Calculator.Proofs.Messages
import Calculator.Proofs.Moves
import Calculator.Proofs.Moves.Descent
import Calculator.Proofs.Moves.History
import Calculator.Proofs.NestingGuard
import Calculator.Proofs.Pieces
import Calculator.Proofs.Placement
import Calculator.Proofs.Precedence
import Calculator.Proofs.Printed
import Calculator.Proofs.Reading
import Calculator.Proofs.Runs
import Calculator.Proofs.Source
import Calculator.Proofs.SourceErrors
import Calculator.Proofs.Spaces
import Calculator.Proofs.Stranger
import Calculator.Proofs.SyntaxErrors
import Calculator.Proofs.Term
import Calculator.Proofs.Texts
import Calculator.Proofs.Trail
import Calculator.Proofs.Tree
import Calculator.Proofs.Tree.Evaluation
import Calculator.Script
import Calculator.Session
import Calculator.Text.Description
import Calculator.Text.Quoted
import Calculator.Token
