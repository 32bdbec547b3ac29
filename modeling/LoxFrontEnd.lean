import LoxFrontEnd.Expr.Basic
import LoxFrontEnd.Number.Decimal
import LoxFrontEnd.Number.Double
import LoxFrontEnd.Number.Shortest
import LoxFrontEnd.Options.CommandLine
import LoxFrontEnd.Options.Declaration
import LoxFrontEnd.Options.Schema
import LoxFrontEnd.Options.TypePath
import LoxFrontEnd.Options.Usage
import LoxFrontEnd.Parse.Basic
import LoxFrontEnd.Parse.Error
import LoxFrontEnd.Parse.Rule
import LoxFrontEnd.Program.Basic
import LoxFrontEnd.Program.Directory
import LoxFrontEnd.Program.Task
import LoxFrontEnd.Program.Transcript
import LoxFrontEnd.Proofs.Expr.Printed
import LoxFrontEnd.Proofs.Grammar.Acceptance
import LoxFrontEnd.Proofs.Grammar.Derivation
import LoxFrontEnd.Proofs.Grammar.Height
import LoxFrontEnd.Proofs.Grammar.Position
import LoxFrontEnd.Proofs.Grammar.Pushdown
import LoxFrontEnd.Proofs.Grammar.Reading
import LoxFrontEnd.Proofs.Grammar.Repeated
import LoxFrontEnd.Proofs.Lexical.Arrangement
import LoxFrontEnd.Proofs.Lexical.Balance
import LoxFrontEnd.Proofs.Lexical.Boundary
import LoxFrontEnd.Proofs.Lexical.Language
import LoxFrontEnd.Proofs.Lexical.Layout
import LoxFrontEnd.Proofs.Lexical.Lookahead
import LoxFrontEnd.Proofs.Lexical.Place
import LoxFrontEnd.Proofs.Lexical.Recovery
import LoxFrontEnd.Proofs.Lexical.Seam
import LoxFrontEnd.Proofs.Lexical.Session
import LoxFrontEnd.Proofs.Lexical.Shift
import LoxFrontEnd.Proofs.Lexical.StringLiteral
import LoxFrontEnd.Proofs.Lexical.Trivia
import LoxFrontEnd.Proofs.Number.Numeral
import LoxFrontEnd.Proofs.Number.ReadBack
import LoxFrontEnd.Proofs.Options.Expansion
import LoxFrontEnd.Proofs.Options.Groups
import LoxFrontEnd.Proofs.Options.Tables
import LoxFrontEnd.Proofs.Options.UsageText
import LoxFrontEnd.Proofs.Options.WellFormed
import LoxFrontEnd.Proofs.Program.Arguments
import LoxFrontEnd.Proofs.Program.Failing
import LoxFrontEnd.Proofs.Program.File
import LoxFrontEnd.Proofs.Program.Lines
import LoxFrontEnd.Proofs.Program.Output
import LoxFrontEnd.Proofs.Program.Prompt
import LoxFrontEnd.Proofs.Source.Content
import LoxFrontEnd.Proofs.Source.Literals
import LoxFrontEnd.Proofs.Source.Respaced
import LoxFrontEnd.Proofs.Source.RoundTrip
import LoxFrontEnd.Proofs.Source.Written
import LoxFrontEnd.Report
import LoxFrontEnd.Run.Basic
import LoxFrontEnd.Scan.Basic
import LoxFrontEnd.Scan.Lexeme
import LoxFrontEnd.Scan.Trivia
import LoxFrontEnd.Text.Line
import LoxFrontEnd.Text.Quoted
import LoxFrontEnd.Text.UpperCase
import LoxFrontEnd.Token.Basic
import LoxFrontEnd.Token.Kind
import LoxFrontEnd.Main
