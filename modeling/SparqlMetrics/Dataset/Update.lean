import SparqlMetrics.Dataset.Analysis

/-!
# Update statements

The result of an analysis as INSERT statements: the metrics and types of the rows in batches of a
given size, then one statement for the namespaces of each benchmark.
-/
namespace SparqlMetrics

inductive UpdateError where
  | emptyBatch
  deriving DecidableEq, Repr

def UpdateError.message : UpdateError → Text
  | .emptyBatch => utf8 "Batch size must be positive"

namespace Update

/-- The vocabulary that describes datasets. -/
def vocabulary : Text := utf8 "http://purl.com/qado/ontology.ttl#"

def header : Text :=
  utf8 "PREFIX qado: " ++ Text.angled vocabulary ++ utf8 "\nINSERT \x7b\n"

def footer : Text := utf8 "\x7d WHERE \x7b\x7d"

/-- The escape of a byte of a type name. -/
def escapeByte (b : Byte) : Text :=
  if b == Byte.quote || b == Byte.backslash then [Byte.backslash, b]
  else if b == Byte.newline then utf8 "\\n"
  else if b == Byte.carriageReturn then utf8 "\\r"
  else [b]

def metricTriple (subject : Text) (entry : Metric × Int) : Text :=
  subject ++ utf8 " " ++ Text.angled entry.1.iri ++ utf8 " \"" ++ Text.ofInt entry.2 ++
    utf8 "\"^^" ++ Text.angled (Iri.xsdNamespace ++ utf8 "nonNegativeInteger") ++ utf8 " .\n"

/-- The triples of a row: its metrics in order, then its type. -/
def triples (row : Row) : Text :=
  let subject := Text.angled row.record.iri
  row.metrics.entries.flatMap (metricTriple subject) ++ subject ++ utf8 " qado:queryType \"" ++
    row.typeName.flatMap escapeByte ++ utf8 "\" .\n"

def namespaceTriple (benchmark iri : Text) : Text :=
  Text.angled (benchmark ++ utf8 "-dataset") ++ utf8 " qado:hasPrefix " ++ Text.angled iri ++
    utf8 " .\n"

def statement (body : Text) : Text := header ++ body ++ footer

/-- A list in pieces of a given size, the last of which may be shorter. -/
def batches {α : Type} (size : Nat) (items : List α) : List (List α) :=
  if _h : size = 0 ∨ items = [] then []
  else items.take size :: batches size (items.drop size)
termination_by items.length
decreasing_by
  have := List.length_pos_iff.mpr (not_or.mp _h).2
  have := (not_or.mp _h).1
  simp only [List.length_drop]
  omega

def statements (size : Nat) (a : Analysis) : Except UpdateError (List Text) :=
  if size = 0 then .error .emptyBatch
  else .ok
    ((batches size a.rows).map (fun rows => statement (rows.flatMap triples)) ++
      a.namespacesByBenchmark.entries.map fun (benchmark, declared) =>
        statement (declared.members.flatMap (namespaceTriple benchmark)))

end Update

end SparqlMetrics
