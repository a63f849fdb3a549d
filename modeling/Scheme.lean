import Scheme.CommandLine.Run
import Scheme.Main
import Scheme.Store.Lemmas
import Scheme.Store.Named
import Scheme.Proofs.Lexing
import Scheme.Proofs.Prefix
import Scheme.Proofs.Written
import Scheme.Proofs.RoundTrip
import Scheme.Proofs.Compatible
import Scheme.Proofs.Trace
import Scheme.Proofs.Output
import Scheme.Proofs.Lines
import Scheme.Proofs.Answers
import Scheme.Proofs.Code
import Scheme.Proofs.Discipline
import Scheme.Proofs.Evaluation
import Scheme.Proofs.WellFormed
import Scheme.Proofs.Encapsulation
import Scheme.Proofs.Failures
import Scheme.Proofs.Scanning
import Scheme.Proofs.Breakdown
import Scheme.Proofs.Unmentioned
import Scheme.Proofs.Grammar
import Scheme.Proofs.Succession
import Scheme.Proofs.Limits
import Scheme.Proofs.DerivedForms
import Scheme.Proofs.Choices
import Scheme.Proofs.CallPaths
import Scheme.Proofs.Forest
import Scheme.Proofs.TopLevel
import Scheme.Proofs.Quotients
import Scheme.Proofs.Partition
import Scheme.Proofs.Parts
import Scheme.Proofs.Naming
import Scheme.Proofs.Floats
import Scheme.Proofs.Buffering
import Scheme.Proofs.Equality
import Scheme.Proofs.Numerals
import Scheme.Proofs.Comparison
import Scheme.Proofs.Arguments
import Scheme.Proofs.Agreement
import Scheme.Proofs.Lookahead
