import SparqlMetrics.Text.Basic
import SparqlMetrics.Text.Encoding
import SparqlMetrics.Text.Numeral
import SparqlMetrics.Text.Order
import SparqlMetrics.Text.Search
import SparqlMetrics.Token.Basic
import SparqlMetrics.Token.Scan
import SparqlMetrics.Token.Stream
import SparqlMetrics.Iri
import SparqlMetrics.Namespaces
import SparqlMetrics.Algebra.Path
import SparqlMetrics.Algebra.Query
import SparqlMetrics.Algebra.ResultVariables
import SparqlMetrics.Algebra.Term
import SparqlMetrics.Grammar.Clauses
import SparqlMetrics.Grammar.Cursor
import SparqlMetrics.Grammar.Error
import SparqlMetrics.Grammar.Expression
import SparqlMetrics.Grammar.Group
import SparqlMetrics.Grammar.Level
import SparqlMetrics.Grammar.Path
import SparqlMetrics.Grammar.Term
import SparqlMetrics.Grammar.Triples
import SparqlMetrics.Grammar.Unit
import SparqlMetrics.Written.Passage
import SparqlMetrics.Written.Query
import SparqlMetrics.Written.Term
import SparqlMetrics.Metric.Basic
import SparqlMetrics.Metric.Count
import SparqlMetrics.Metric.Normal
import SparqlMetrics.Diagnostic.Basic
import SparqlMetrics.Diagnostic.Frame
import SparqlMetrics.Files
import SparqlMetrics.Json.Basic
import SparqlMetrics.Json.Reader
import SparqlMetrics.Json.Standard
import SparqlMetrics.Json.Writer
import SparqlMetrics.Dataset.Analysis
import SparqlMetrics.Dataset.Dictionary
import SparqlMetrics.Dataset.Record
import SparqlMetrics.Dataset.Resolution
import SparqlMetrics.Dataset.RunState
import SparqlMetrics.Dataset.StatementFiles
import SparqlMetrics.Dataset.Update
import SparqlMetrics.Table
import SparqlMetrics.Command.DatasetRun
import SparqlMetrics.Command.Help
import SparqlMetrics.Command.Options
import SparqlMetrics.Command.Run
import SparqlMetrics.Command.Upload
import SparqlMetrics.Command.Version
import SparqlMetrics.Main
import SparqlMetrics.Proofs.Token.Spelling
import SparqlMetrics.Proofs.Tree.Everywhere
import SparqlMetrics.Proofs.Tree.Legal
import SparqlMetrics.Proofs.Tree.Rewriting
import SparqlMetrics.Proofs.Grammar.Yields
import SparqlMetrics.Proofs.Absolute
import SparqlMetrics.Proofs.Grammar.LegalTerms
import SparqlMetrics.Proofs.Text.Numeral
import SparqlMetrics.Proofs.Grammar.LegalTriples
import SparqlMetrics.Proofs.Text.Byte
import SparqlMetrics.Proofs.Grammar.LegalExpressions
import SparqlMetrics.Proofs.Grammar.LegalQueries
import SparqlMetrics.Proofs.Grammar.Tracks
import SparqlMetrics.Proofs.Grammar.TracksTerms
import SparqlMetrics.Proofs.Grammar.TracksTriples
import SparqlMetrics.Proofs.Grammar.TracksExpressions
import SparqlMetrics.Proofs.Grammar.TracksQueries
import SparqlMetrics.Proofs.Token.Opens
import SparqlMetrics.Proofs.Grammar.Before
import SparqlMetrics.Proofs.Declarations
import SparqlMetrics.Proofs.Resolution
import SparqlMetrics.Proofs.Token.Written
import SparqlMetrics.Proofs.Reading.Reads
import SparqlMetrics.Proofs.Reading.Actions
import SparqlMetrics.Proofs.Reading.Terms
import SparqlMetrics.Proofs.Reading.Paths
import SparqlMetrics.Proofs.Reading.Triples
import SparqlMetrics.Proofs.Reading.Tables
import SparqlMetrics.Proofs.Reading.Operands
import SparqlMetrics.Proofs.Reading.Operators
import SparqlMetrics.Proofs.Reading.Calls
import SparqlMetrics.Proofs.Dataset.Analysis
import SparqlMetrics.Proofs.Dataset.Records
import SparqlMetrics.Proofs.Dataset.Update
import SparqlMetrics.Proofs.Rereading
import SparqlMetrics.Proofs.Prologue
import SparqlMetrics.Proofs.Token.Strings
import SparqlMetrics.Proofs.Token.Readers
import SparqlMetrics.Proofs.Token.Respaced
import SparqlMetrics.Proofs.Token.Splice
import SparqlMetrics.Proofs.PrintedIris
import SparqlMetrics.Proofs.Respelling
import SparqlMetrics.Proofs.TreeDepth
import SparqlMetrics.Proofs.Normalization
import SparqlMetrics.Proofs.Token.Gaps
import SparqlMetrics.Proofs.Respacing
import SparqlMetrics.Proofs.Metric.Reached
import SparqlMetrics.Proofs.Metric.Passes
import SparqlMetrics.Proofs.Metric.Count
import SparqlMetrics.Proofs.Tree.Strings
import SparqlMetrics.Proofs.Grammar.Sources
import SparqlMetrics.Proofs.Grammar.Answers
import SparqlMetrics.Proofs.Grammar.AnswersTerms
import SparqlMetrics.Proofs.Grammar.AnswersTriples
import SparqlMetrics.Proofs.Grammar.AnswersExpressions
import SparqlMetrics.Proofs.Grammar.AnswersQueries
import SparqlMetrics.Proofs.Grammar.AnswersPrologue
import SparqlMetrics.Proofs.Token.Places
import SparqlMetrics.Proofs.Outcome
import SparqlMetrics.Proofs.BlankNodes
import SparqlMetrics.Proofs.Text.Utf8
import SparqlMetrics.Proofs.Token.Encoded
import SparqlMetrics.Proofs.Encoding
import SparqlMetrics.Proofs.Grammar.Truncation
import SparqlMetrics.Proofs.Reading.Limits
import SparqlMetrics.Proofs.WrittenPaths
import SparqlMetrics.Proofs.WrittenExpressions
import SparqlMetrics.Proofs.Grammar.Consumes
import SparqlMetrics.Proofs.Paths.Derivations
import SparqlMetrics.Proofs.Paths.Accepted
import SparqlMetrics.Proofs.Paths.Sound
import SparqlMetrics.Proofs.Iri.Components
import SparqlMetrics.Proofs.Iri.Places
import SparqlMetrics.Proofs.AbsoluteQueries
import SparqlMetrics.Proofs.Injection
import SparqlMetrics.Proofs.Normal.Descriptions
import SparqlMetrics.Proofs.DeclarationRemoval
import SparqlMetrics.Proofs.Text.Fields
import SparqlMetrics.Proofs.Dataset.RecordFields
import SparqlMetrics.Proofs.Dataset.RecordLines
import SparqlMetrics.Proofs.Dataset.Batches
import SparqlMetrics.Proofs.Tree.Subtrees
import SparqlMetrics.Proofs.Scope
import SparqlMetrics.Proofs.Text.Integer
import SparqlMetrics.Proofs.Table.Rows
import SparqlMetrics.Proofs.Table.SeparatedValues
import SparqlMetrics.Proofs.Json.Writer
import SparqlMetrics.Proofs.Json.Reader
import SparqlMetrics.Proofs.Table.Objects
import SparqlMetrics.Proofs.Token.Faults
import SparqlMetrics.Proofs.Diagnostic.Lines
import SparqlMetrics.Proofs.Diagnostic.Frames
import SparqlMetrics.Proofs.Grammar.Nests
import SparqlMetrics.Proofs.Grammar.NestsTriples
import SparqlMetrics.Proofs.Grammar.NestsExpressions
import SparqlMetrics.Proofs.Grammar.NestsQueries
import SparqlMetrics.Proofs.Diagnostic.OpenGroups
import SparqlMetrics.Proofs.Text.Sequences
import SparqlMetrics.Proofs.Command.Arguments
import SparqlMetrics.Proofs.Text.Leading
import SparqlMetrics.Proofs.Command.Numbers
import SparqlMetrics.Proofs.Command.Interaction
import SparqlMetrics.Proofs.Command.Deliveries
import SparqlMetrics.Proofs.Command.Outputs
import SparqlMetrics.Proofs.Command.Reports
import SparqlMetrics.Proofs.Command.DatasetRun
import SparqlMetrics.Proofs.Command.Consistency
import SparqlMetrics.Proofs.WrittenLiterals
import SparqlMetrics.Proofs.Command.Forms
import SparqlMetrics.Proofs.Diagnostic.Ranges
import SparqlMetrics.Proofs.Metric.PathSpine
import SparqlMetrics.Proofs.Token.Coverage
import SparqlMetrics.Proofs.SubSelects
import SparqlMetrics.Proofs.Relabeling
