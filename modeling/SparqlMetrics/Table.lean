import SparqlMetrics.Dataset.Analysis
import SparqlMetrics.Files
import SparqlMetrics.Json.Writer

/-!
# Metric tables

The rows of an analysis as a table of seventeen columns, four of texts and thirteen of numbers, in
comma separated values, as one JSON array, or as one JSON object a line.
-/
namespace SparqlMetrics

inductive Cell where
  | text (value : Text)
  | number (value : Int)
  deriving DecidableEq, Repr

inductive TableFormat where
  | csv | json | ndjson | parquet
  deriving DecidableEq, Repr

namespace TableFormat

def name : TableFormat → String
  | .csv => "csv"
  | .json => "json"
  | .ndjson => "ndjson"
  | .parquet => "parquet"

def all : List TableFormat := [.csv, .json, .ndjson, .parquet]

def ofName? (name : Text) : Option TableFormat := all.find? fun f => utf8 f.name == name

end TableFormat

inductive TableError where
  | unknownFormat (name : Text)
  | cannotOpen (path : Text)
  | noParquet
  deriving DecidableEq, Repr

def TableError.message : TableError → Text
  | .unknownFormat name => utf8 "Unknown export format: " ++ name
  | .cannotOpen path => utf8 "Failed to open file for writing: " ++ path
  | .noParquet => utf8 "Parquet export requires Apache Arrow feature"

namespace Table

def columns : List Text :=
  [utf8 "query_uri", utf8 "question", utf8 "benchmark", utf8 "query_type"] ++
    Metric.all.map fun m => utf8 m.name

def cells (row : Row) : List Cell :=
  [.text row.record.iri, .text row.record.question, .text row.record.benchmark,
    .text row.typeName] ++ row.metrics.entries.map fun entry => .number entry.2

/-- A cell as a bare text. -/
def bare : Cell → Text
  | .text value => value
  | .number value => Text.ofInt value

/-- A byte for which a field has to be quoted. -/
def needsQuotes (b : Byte) : Bool :=
  b == Byte.comma || b == Byte.quote || b == Byte.newline || b == Byte.carriageReturn

/-- A byte of a quoted field; a quote is written twice. -/
def doubleQuote (b : Byte) : Text := if b == Byte.quote then [b, b] else [b]

def csvField (value : Text) : Text :=
  if value.any needsQuotes then
    Byte.quote :: value.flatMap doubleQuote ++ [Byte.quote]
  else value

def csvLine (values : List Text) : Text :=
  Text.join [Byte.comma] (values.map csvField) ++ [Byte.newline]

/-- A table as comma separated values, its columns in the first line. -/
def csv (rows : List Row) : Text :=
  csvLine columns ++ rows.flatMap fun row => csvLine ((cells row).map bare)

/-- A cell as a JSON value. -/
def jsonValue : Cell → Text
  | .text value => Json.quoted value
  | .number value => Text.ofInt value

def jsonMember (column : Text) (cell : Cell) : Text :=
  Json.quoted column ++ Byte.colon :: jsonValue cell

def jsonObject (row : Row) : Text :=
  Byte.lbrace ::
    Text.join [Byte.comma] (List.zipWith jsonMember columns (cells row)) ++ [Byte.rbrace]

/-- A table as a JSON array. -/
def json (rows : List Row) : Text :=
  Byte.lbracket :: Text.join [Byte.comma] (rows.map jsonObject) ++ [Byte.rbracket, Byte.newline]

/-- A table as a JSON object on each line. -/
def ndjson (rows : List Row) : Text :=
  rows.flatMap fun row => jsonObject row ++ [Byte.newline]

/-- The outcome of writing a table: the error if there is one, and what went to standard output. -/
structure Written where
  error : Option TableError := none
  output : Text := []
  deriving DecidableEq, Repr

/-- Writes a table into a file. Only whether the file could be opened is looked at. -/
def toFile {m : Type → Type} [Monad m] [MonadFiles m] (path content : Text) : m Written := do
  match ← MonadFiles.writeFile path content with
  | .error .cannotOpen => pure { error := some (.cannotOpen path) }
  | .error .cannotWrite => pure {}
  | .ok () => pure {}

/-- Writes a table into a file, or to standard output when no path is given. -/
def toFileOrOutput {m : Type → Type} [Monad m] [MonadFiles m] (path content : Text) :
    m Written := do
  if path.isEmpty then pure { output := content } else toFile path content

/-- Writes rows in the format of a given name. -/
def write {m : Type → Type} [Monad m] [MonadFiles m] (rows : List Row) (format path : Text) :
    m Written :=
  match TableFormat.ofName? format with
  | some .csv => toFile path (csv rows)
  | some .json => toFileOrOutput path (json rows)
  | some .ndjson => toFileOrOutput path (ndjson rows)
  | some .parquet => pure { error := some .noParquet }
  | none => pure { error := some (.unknownFormat format) }

end Table

end SparqlMetrics
