import ScriptFront.Command.Help
import ScriptFront.Command.Options
import ScriptFront.Command.Repl
import ScriptFront.Command.Run
import ScriptFront.Config.Basic
import ScriptFront.Config.Load
import ScriptFront.Diagnostic.Basic
import ScriptFront.Diagnostic.Log
import ScriptFront.Files.Basic
import ScriptFront.Files.Glob
import ScriptFront.Files.Path
import ScriptFront.Main
import ScriptFront.Number.Binary64
import ScriptFront.Number.Layout
import ScriptFront.Number.Numeral
import ScriptFront.Number.Shortest
import ScriptFront.Output.Format
import ScriptFront.Output.Sink
import ScriptFront.Parse.Cursor
import ScriptFront.Parse.Expression
import ScriptFront.Parse.Progress
import ScriptFront.Parse.Recursion
import ScriptFront.Parse.Reply
import ScriptFront.Parse.Statement
import ScriptFront.Session
import ScriptFront.Suite.Case
import ScriptFront.Suite.Datum
import ScriptFront.Text.Base64
import ScriptFront.Text.Bytes
import ScriptFront.Text.Calendar
import ScriptFront.Text.Printable
import ScriptFront.Text.Quoted
import ScriptFront.Text.Utf8
import ScriptFront.Text.Width
import ScriptFront.Token.Basic
import ScriptFront.Token.Kind
import ScriptFront.Token.Scan
import ScriptFront.Token.Segment
import ScriptFront.Toml.Document
import ScriptFront.Toml.Read
import ScriptFront.Toml.Scalar
import ScriptFront.Toml.Table
import ScriptFront.Tree.Basic
import ScriptFront.Tree.Outline
import ScriptFront.Tree.Render
import ScriptFront.Tree.Walk
import ScriptFront.Value
import ScriptFront.Yaml.Document
import ScriptFront.Yaml.Implicit
import ScriptFront.Yaml.Scalar
import ScriptFront.Yaml.Timestamp
import ScriptFront.Proofs.Completeness.Expression
import ScriptFront.Proofs.Completeness.Program
import ScriptFront.Proofs.Soundness.Expression
import ScriptFront.Proofs.Soundness.Program
import ScriptFront.Proofs.Slice.Parser
import ScriptFront.Proofs.Slice.Refinement
import ScriptFront.Proofs.Slice.Expression
import ScriptFront.Proofs.Slice.Statement
import ScriptFront.Proofs.Slice.Safety
import ScriptFront.Proofs.Parse.Locality
import ScriptFront.Proofs.Recovery.Closed
import ScriptFront.Proofs.Recovery.Spans
import ScriptFront.Proofs.Recovery.Append
import ScriptFront.Proofs.Session.History
import ScriptFront.Proofs.Tree.Universe
import ScriptFront.Proofs.Tree.Tokens
import ScriptFront.Proofs.NormalForm.Basic
import ScriptFront.Proofs.Parse.Postcondition
import ScriptFront.Proofs.NormalForm.Expression
import ScriptFront.Proofs.NormalForm.Program
import ScriptFront.Proofs.Correspondence.Basic
import ScriptFront.Proofs.Correspondence.Expression
import ScriptFront.Proofs.Correspondence.Program
import ScriptFront.Proofs.Scan.Longest
import ScriptFront.Proofs.Scan.Number
import ScriptFront.Proofs.Scan.Tokens
import ScriptFront.Proofs.Scan.Boundary
import ScriptFront.Proofs.Scan.Lines
import ScriptFront.Proofs.Scan.LineByLine
import ScriptFront.Proofs.Recovery.Source
import ScriptFront.Proofs.Tree.Attribution
import ScriptFront.Proofs.Command.LineMode
import ScriptFront.Proofs.Number.Rounding
import ScriptFront.Proofs.Number.Shortest
import ScriptFront.Proofs.Number.Digits
import ScriptFront.Proofs.Number.Layout
import ScriptFront.Proofs.Text.Quoted
import ScriptFront.Proofs.Text.Sexp
import ScriptFront.Proofs.Value
import ScriptFront.Proofs.Scan.Words
import ScriptFront.Proofs.Tree.Shown
import ScriptFront.Proofs.Tree.Unambiguous
import ScriptFront.Proofs.Scan.Spaced
import ScriptFront.Proofs.Scan.Position
import ScriptFront.Proofs.Parse.Part
import ScriptFront.Proofs.Recovery.Semicolon
import ScriptFront.Proofs.Tree.Nesting
import ScriptFront.Proofs.Parse.Outcome
import ScriptFront.Proofs.Grammar.WrittenOut
import ScriptFront.Proofs.Order.Basic
import ScriptFront.Proofs.Order.Expression
import ScriptFront.Proofs.Order.Program
import ScriptFront.Proofs.Text.Lines
import ScriptFront.Proofs.Output.Lines
import ScriptFront.Proofs.Recovery.Resume
