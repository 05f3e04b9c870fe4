import SparqlMetrics.Text.Numeral
import SparqlMetrics.Text.Search

/-!
# Benchmark records

A line of a queries file holds a question, a query IRI and a query text, or only the last two, with
a separator between them. The benchmark is the part of the question before its number. A record's
IRI and benchmark are written into statements between angle brackets, so they may hold no byte that
an IRI reference cannot hold. Main definitions: `Record.fill` and `Record.readAll`.
-/
namespace SparqlMetrics

structure Record where
  question : Text := []
  iri : Text := []
  text : Text := []
  benchmark : Text := []
  deriving DecidableEq, Repr

inductive RecordError where
  | missingFields
  | emptyIri
  | unsafeIri (iri : Text)
  | emptyQuery (iri : Text)
  | unsafeBenchmark (name : Text)
  deriving DecidableEq, Repr

def fieldSeparator : Text := utf8 "/||\\"

def RecordError.message : RecordError → Text
  | .missingFields => utf8 "Expected question/||\\uri/||\\query fields"
  | .emptyIri => utf8 "Empty query IRI"
  | .unsafeIri iri => utf8 "Invalid query IRI: " ++ iri
  | .emptyQuery iri => utf8 "Empty query text for " ++ iri
  | .unsafeBenchmark name => utf8 "Invalid benchmark name: " ++ name

/-- A byte that an IRI reference between angle brackets can hold. -/
def isIriSafeByte (b : Byte) : Bool :=
  Byte.space < b && b != Byte.less && b != Byte.greater && b != Byte.quote &&
    b != Byte.lbrace && b != Byte.rbrace && b != Byte.pipe && b != Byte.caret &&
    b != Byte.backquote && b != Byte.backslash

/-- Whether a text can be written between angle brackets. -/
def isIriSafe (s : Text) : Bool := s.all isIriSafeByte

namespace Record

/-- The part of a question before its number. -/
def benchmarkOf (question : Text) : Text :=
  match Text.cut? (utf8 "-question") question with
  | some (before, _) => before
  | none => question

/-- A query text with its disjunctions in the query language's spelling. -/
def withDisjunctions (s : Text) : Text := Text.replaceAll (utf8 " OR ") (utf8 " || ") s

/-- The question and IRI of the fields in front of the query text. Without a question the IRI takes
its place. -/
def identified : List Text → Record
  | [iri] => { question := Text.trim iri, iri := Text.trim iri }
  | question :: iri :: _ => { question := Text.trim question, iri := Text.trim iri }
  | [] => {}

/-- Fills a record from a line. The fields are set one after the other; a line that is no record
leaves those set before the error, or the old record when it has no fields. -/
def fill (old : Record) (line : Text) : Record × Option RecordError :=
  let fields := Text.split fieldSeparator line
  if fields.length < 2 then (old, some .missingFields)
  else
    let named := identified fields.dropLast
    if named.iri.isEmpty then (named, some .emptyIri)
    else if !isIriSafe named.iri then (named, some (.unsafeIri named.iri))
    else
      let worded := { named with text := withDisjunctions (fields.getLastD []) }
      if (Text.trim worded.text).isEmpty then (worded, some (.emptyQuery named.iri))
      else
        let whole := { worded with benchmark := benchmarkOf named.question }
        if isIriSafe whole.benchmark then (whole, none)
        else (whole, some (.unsafeBenchmark whole.benchmark))

def read (line : Text) : Except RecordError Record :=
  match fill {} line with
  | (record, none) => .ok record
  | (_, some e) => .error e

/-- An error with the number of its line. -/
def numbered (number : Nat) (e : RecordError) : Text :=
  utf8 "line " ++ Text.ofNat number ++ utf8 ": " ++ e.message

/-- The records and the errors of lines with given numbers; blank lines are passed over. -/
def readLines : Nat → List Text → List Record × List Text
  | _, [] => ([], [])
  | number, line :: rest =>
    let (records, errors) := readLines (number + 1) rest
    let content := Text.withoutReturn line
    if (Text.trim content).isEmpty then (records, errors)
    else
      match read content with
      | .ok record => (record :: records, errors)
      | .error e => (records, numbered number e :: errors)

/-- The records of a queries file and the errors of the lines that are none. -/
def readAll (s : Text) : List Record × List Text := readLines 1 (Text.split [Byte.newline] s)

end Record

end SparqlMetrics
