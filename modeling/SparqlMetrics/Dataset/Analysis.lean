import SparqlMetrics.Dataset.Record
import SparqlMetrics.Dataset.Resolution
import SparqlMetrics.Metric.Basic
import SparqlMetrics.Text.Order

/-!
# Analysis of a dataset

The records of a dataset are read under its dictionary one after the other. A query that can be read
yields a row of the result and the namespaces of its benchmark; one that cannot is counted and
noted. A benchmark with queries but no namespaces gets a stand-in for them.
-/
namespace SparqlMetrics

structure Row where
  record : Record
  typeName : Text
  metrics : Metrics

structure Analysis where
  rows : List Row := []
  parsable : Nat := 0
  nonParsable : Nat := 0
  exceptions : List Text := []
  failuresByBenchmark : TextMap Nat := .empty
  namespacesByBenchmark : TextMap TextSet := .empty

namespace Analysis

/-- The namespace that stands for those of a benchmark without any. -/
def noNamespace : Text := utf8 "urn:no:prefix"

/-- What is noted of a record that cannot be read. -/
def exceptionOf (record : Record) (message : Text) : Text :=
  record.iri ++ utf8 "    " ++ message

/-- Counts a record that cannot be read; the same note is kept once. -/
def addFailure (record : Record) (message : Text) (a : Analysis) : Analysis :=
  let exception := exceptionOf record message
  { a with
    exceptions :=
      if exception ∈ a.exceptions then a.exceptions else a.exceptions ++ [exception]
    failuresByBenchmark := a.failuresByBenchmark.alter record.benchmark 0 (· + 1)
    nonParsable := a.nonParsable + 1 }

/-- Adds the row of a record and the namespaces that its query declares. -/
def addRow (record : Record) (unit : QueryUnit) (a : Analysis) : Analysis :=
  let declared := unit.namespaces.entries.map (·.2)
  { a with
    rows := a.rows ++ [⟨record, unit.query.typeName, unit.metrics⟩]
    parsable := a.parsable + 1
    namespacesByBenchmark :=
      a.namespacesByBenchmark.alter record.benchmark .empty (TextSet.insertAll declared) }

def addRecord (dictionary : Namespaces) (a : Analysis) (record : Record) : Analysis :=
  match (Resolution.ofText dictionary record.text).outcome with
  | .ok unit => a.addRow record unit
  | .error report => a.addFailure record report.message

/-- Puts the stand-in where a benchmark has no namespace. -/
def standIn (namespaces : TextMap TextSet) : TextMap TextSet :=
  namespaces.mapValues fun declared =>
    if declared.members.isEmpty then .singleton noNamespace else declared

def ofRecords (dictionary : Namespaces) (records : List Record) : Analysis :=
  let a := records.foldl (addRecord dictionary) {}
  { a with namespacesByBenchmark := standIn a.namespacesByBenchmark }

/-- The warning of a record that cannot be read. -/
def warning (dictionary : Namespaces) (record : Record) : Text :=
  match (Resolution.ofText dictionary record.text).outcome with
  | .ok _ => []
  | .error report =>
    utf8 "warning: " ++ record.iri ++ utf8 ": " ++ report.message ++ utf8 "\n"

def summary (a : Analysis) : Text :=
  utf8 "Parsable: " ++ Text.ofNat a.parsable ++ utf8 ", non-parsable: " ++
    Text.ofNat a.nonParsable ++ utf8 "\n" ++
    a.failuresByBenchmark.entries.flatMap fun (benchmark, failures) =>
      utf8 "  " ++ benchmark ++ utf8 ": " ++ Text.ofNat failures ++ utf8 " non-parsable\n"

/-- The log of an analysis: the number of queries, a warning for each failure, and the counts. -/
def log (dictionary : Namespaces) (records : List Record) : Text :=
  utf8 "Analysing " ++ Text.ofNat records.length ++ utf8 " SPARQL queries...\n" ++
    records.flatMap (warning dictionary) ++ (ofRecords dictionary records).summary

end Analysis

end SparqlMetrics
