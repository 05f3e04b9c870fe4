import SparqlMetrics.Command.DatasetRun
import SparqlMetrics.Command.Help
import SparqlMetrics.Diagnostic.Basic
import SparqlMetrics.Text.Encoding

/-!
# The command

A call of the program: its options decide between help, the analysis of one query, the check of one
query and the analysis of a dataset. The exit code of a call for one query is 0 for success, 1 for a
query that is refused, 2 for a call that is. A report in JSON that cannot be put into words, since it
quotes bytes that are not UTF-8, ends the program without an exit code.
-/
namespace SparqlMetrics

def SourceRange.document (range : SourceRange) : Json :=
  .object [
    (utf8 "start_line", .number range.first.line 0),
    (utf8 "start_col", .number range.first.column 0),
    (utf8 "end_line", .number range.behind.line 0),
    (utf8 "end_col", .number range.behind.column 0),
    (utf8 "byte_start", .number range.byteStart 0),
    (utf8 "byte_end", .number range.byteEnd 0)]

def RelatedPlace.document (place : RelatedPlace) : Json :=
  .object [(utf8 "message", .string place.message), (utf8 "span", place.range.document)]

def Diagnostic.document (d : Diagnostic) : Json :=
  .object [
    (utf8 "severity", .string (utf8 d.severity.name)),
    (utf8 "code", .string d.code),
    (utf8 "message", .string d.message),
    (utf8 "help", .string d.help),
    (utf8 "doc_ref", .string d.reference),
    (utf8 "span", d.range.document),
    (utf8 "snippet", .string d.snippet),
    (utf8 "related", .array (d.related.map RelatedPlace.document))]

namespace Command

def wantsJson (o : Options) : Bool := o.format == utf8 "json"

def metricLine (entry : Metric × Int) : Text :=
  utf8 entry.1.name ++ utf8 ": " ++ Text.ofInt entry.2 ++ utf8 "\n"

/-- The type and the metrics of a query as lines. -/
def metricLines (unit : QueryUnit) : Text :=
  utf8 "queryType: " ++ unit.query.typeName ++ utf8 "\n" ++
    unit.metrics.entries.flatMap metricLine

def metricDocument (unit : QueryUnit) : Json :=
  .object ((utf8 "queryType", .string unit.query.typeName) ::
    unit.metrics.entries.map fun entry => (utf8 entry.1.name, .number entry.2 0))

section Reports

variable [JsonLibrary]

def diagnosticReport? (o : Options) (diagnostics : List Diagnostic) : Option Text :=
  if wantsJson o then JsonLibrary.dump? none (.array (diagnostics.map Diagnostic.document))
  else if diagnostics.isEmpty then some (utf8 "No diagnostics.")
  else some (Diagnostic.renderAll diagnostics)

/-- The type and the metrics of a query as they are reported. -/
def metricReport? (o : Options) (unit : QueryUnit) : Option Text :=
  if wantsJson o then (JsonLibrary.dump? (some 2) (metricDocument unit)).map (· ++ utf8 "\n")
  else some (metricLines unit)

def lintQuery (o : Options) (query : Text) : Outcome :=
  let diagnostics := lint query
  match diagnosticReport? o diagnostics with
  | some report =>
    { exitCode := some (if Diagnostic.anyError diagnostics then 1 else 0)
      output := report ++ utf8 "\n" }
  | none => .aborted

def analyzeQuery (o : Options) (query : Text) : Outcome :=
  match QueryUnit.parse query with
  | .ok unit =>
    match metricReport? o unit with
    | some report => { output := report }
    | none => .aborted
  | .error e =>
    match diagnosticReport? o [Diagnostic.ofReport query e.report] with
    | some report => { exitCode := some 1, errors := report ++ utf8 "\n" }
    | none => .aborted

def missingQuery (o : Options) : Outcome :=
  .refused (utf8
    (if o.lint then "Missing query for --lint (use --lint \"...\" or --query/--query-file)"
     else "Missing --query, --query-file or --dataset"))

def runQuery (o : Options) (query : Text) : Outcome :=
  if query.isEmpty then missingQuery o
  else if o.lint then lintQuery o query
  else analyzeQuery o query

end Reports

variable {m : Type → Type} [Monad m] [MonadFiles m] [JsonLibrary]

def runQueryFile (o : Options) : m Outcome := do
  match ← MonadFiles.readFile o.queryFile with
  | none => pure (.refused (utf8 "Error: Failed to open file: " ++ o.queryFile))
  | some query =>
    if Text.isValidUtf8 query then pure (runQuery o query)
    else pure (.refused (utf8 "Error: query file is not valid UTF-8: " ++ o.queryFile))

variable [MonadTransport m] [MonadClock m] [MonadRandom m]

/-- Does what the options ask for. -/
def runOptions (o : Options) : m Outcome :=
  if o.showHelp then pure { output := Help.options }
  else if o.showVersion then
    pure { output := utf8 "sparqlstats " ++ Version.current.write ++ utf8 "\n" }
  else if !o.dataset.isEmpty then DatasetRun.run o
  else if !o.queryFile.isEmpty then runQueryFile o
  else pure (runQuery o o.query)

/-- Runs the program on its arguments. -/
def run (arguments : List Text) : m Outcome :=
  if arguments.isEmpty then pure { output := Help.summary }
  else
    match Options.read {} arguments with
    | .error e => pure (.refused e.message)
    | .ok o => runOptions o

end Command

end SparqlMetrics
