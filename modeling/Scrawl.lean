import Scrawl.CommandLine.Arguments
import Scrawl.CommandLine.Directory
import Scrawl.CommandLine.Report
import Scrawl.Decimal.FloatText
import Scrawl.Decimal.Numeral
import Scrawl.Decimal.Shortest
import Scrawl.Double
import Scrawl.Entries
import Scrawl.Expression.Postfix
import Scrawl.Expression.Scan
import Scrawl.Expression.Tree
import Scrawl.Fault
import Scrawl.Json.Basic
import Scrawl.Json.Printer
import Scrawl.Json.Reader
import Scrawl.Machine.Builtin
import Scrawl.Machine.Run
import Scrawl.Machine.State
import Scrawl.Main
import Scrawl.Node.Basic
import Scrawl.Node.Document
import Scrawl.Node.Outline
import Scrawl.Parser.Cursor
import Scrawl.Parser.Program
import Scrawl.Proofs.Expression.Grammar
import Scrawl.Proofs.Expression.Items
import Scrawl.Proofs.Expression.Phrase
import Scrawl.Proofs.Expression.Reordering
import Scrawl.Proofs.Machine.Discipline
import Scrawl.Proofs.Machine.Within
import Scrawl.Proofs.Node.Formed
import Scrawl.Proofs.Node.Rendering
import Scrawl.Proofs.Parser.Fuel
import Scrawl.Proofs.Parser.Progress
import Scrawl.Proofs.Parser.Reading
import Scrawl.Proofs.Parser.RoundTrip
import Scrawl.Proofs.Parser.Run
import Scrawl.Proofs.Parser.Statements
import Scrawl.Proofs.Parser.Trees
import Scrawl.Proofs.Scope.Frames
import Scrawl.Proofs.Scope.Layers
import Scrawl.Proofs.Token.Literal
import Scrawl.Random
import Scrawl.Scope
import Scrawl.Text.Blank
import Scrawl.Text.Digit
import Scrawl.Text.Lines
import Scrawl.Text.Printable
import Scrawl.Text.Quoted
import Scrawl.Text.Utf8
import Scrawl.Token.Basic
import Scrawl.Token.Kind
import Scrawl.Token.Lexer
import Scrawl.Value.Basic
import Scrawl.Value.Input
import Scrawl.Value.Operator
import Scrawl.Proofs.Scope.Density
import Scrawl.Proofs.Node.Document
import Scrawl.Proofs.Machine.Faults
import Scrawl.Proofs.Double.Parts
import Scrawl.Proofs.Text.Utf8
import Scrawl.Proofs.Decimal.Shortest
import Scrawl.Proofs.Decimal.Digits
import Scrawl.Proofs.Decimal.FloatText
import Scrawl.Proofs.Json.Scalars
import Scrawl.Proofs.Json.RoundTrip
import Scrawl.Proofs.Machine.Places
import Scrawl.Proofs.Node.DocumentText
import Scrawl.Proofs.CommandLine.Arguments
import Scrawl.Proofs.CommandLine.Emission
import Scrawl.Proofs.Token.Spelling
import Scrawl.Proofs.Token.Layout
import Scrawl.Proofs.Token.Printing
import Scrawl.Proofs.Parser.Concatenation
import Scrawl.Proofs.Machine.Fuel
import Scrawl.Proofs.Parser.Places
import Scrawl.Proofs.Machine.Session
import Scrawl.Proofs.Machine.Relaid
import Scrawl.Proofs.Node.Drawing
import Scrawl.Proofs.Node.Alike
import Scrawl.Proofs.Scope.Alike
import Scrawl.Proofs.Machine.Trace
import Scrawl.Proofs.Machine.DeadCode
import Scrawl.Proofs.Machine.Renaming
import Scrawl.Proofs.Parser.Spans
import Scrawl.Proofs.Parser.Brackets
import Scrawl.Proofs.Expression.Placement
import Scrawl.Proofs.Expression.Acceptance
import Scrawl.Proofs.Node.Names
import Scrawl.Proofs.Machine.Pervasive
import Scrawl.Proofs.Machine.Unnamed
import Scrawl.Proofs.Json.Progress
import Scrawl.Proofs.Expression.Failures
import Scrawl.Proofs.Parser.Complaints
import Scrawl.Proofs.CommandLine.Endings
import Scrawl.Proofs.Parser.Totality
import Scrawl.Proofs.Machine.Silent
import Scrawl.Proofs.Machine.Compound
import Scrawl.Proofs.Machine.Layered
import Scrawl.Proofs.Machine.Loops
import Scrawl.Proofs.Expression.Order
import Scrawl.Proofs.Expression.Account
import Scrawl.Proofs.Machine.CallFree
import Scrawl.Proofs.Machine.Atomic
import Scrawl.Proofs.Machine.Sorts
import Scrawl.Proofs.Machine.Calls
import Scrawl.Proofs.Expression.PostOrder
import Scrawl.Proofs.Machine.IntegerText
import Scrawl.Proofs.Parser.Lexemes
import Scrawl.Proofs.Node.Decoding
import Scrawl.Proofs.Node.PlainLabels
import Scrawl.Proofs.Expression.Postfix
import Scrawl.Proofs.Value.Division
