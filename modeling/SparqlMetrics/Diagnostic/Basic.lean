import SparqlMetrics.Diagnostic.Frame
import SparqlMetrics.Grammar.Unit

/-!
# Diagnostics

An error of a query text as a report for its author: a stable code, help, a reference, the range it
concerns with a code frame, and related places. The code of a syntax error follows from its wording.
Main definition: `lint`, which reads a text and reports why it is no query.
-/
namespace SparqlMetrics

inductive Severity where
  | error | warning | note
  deriving DecidableEq, Repr

def Severity.name : Severity → String
  | .error => "ERROR"
  | .warning => "WARNING"
  | .note => "NOTE"

structure RelatedPlace where
  message : Text
  range : SourceRange
  deriving DecidableEq, Repr

structure Diagnostic where
  severity : Severity := .error
  code : Text
  message : Text
  help : Text
  reference : Text
  range : SourceRange
  snippet : Text
  related : List RelatedPlace := []
  deriving DecidableEq, Repr

namespace Diagnostic

/-- A chapter of the query language's documentation. -/
def documentation (chapter : String) : Text :=
  utf8 "https://www.w3.org/TR/sparql11-query/#" ++ utf8 chapter

/-- A code with its help. -/
structure Advice where
  code : Text
  help : Text

/-- Whether a message speaks of a word, in any spelling of its letters. -/
def mentions (message : Text) (word : String) : Bool :=
  Text.contains (utf8 word).toUpper message.toUpper

def asksForBracket (message : Text) : Bool :=
  mentions message "expected )" || mentions message "expected \x7d" ||
    mentions message "expected ]"

def clauseOrderHelp : Text :=
  utf8 "Check clause order: PREFIX/BASE ... SELECT|ASK|CONSTRUCT|DESCRIBE ... " ++
    utf8 "WHERE \x7b ... \x7d GROUP BY ... HAVING ... ORDER BY ... LIMIT ... OFFSET ..."

/-- The code and help of a syntax error. -/
def adviceFor (message : Text) : Advice :=
  if mentions message "unexpected token after query" then
    ⟨utf8 "SQS-SYN-0002",
      utf8 "Remove trailing tokens after the query ends; only one query is allowed per input."⟩
  else if asksForBracket message then
    ⟨utf8 "SQS-SYN-0003", utf8 "Close the open bracket before continuing."⟩
  else if mentions message "not supported" then
    ⟨utf8 "SQS-SYN-0001", utf8 "Rewrite the construct with explicit triple patterns."⟩
  else ⟨utf8 "SQS-SYN-0001", clauseOrderHelp⟩

def ofSyntaxError (s message : Text) (position : Nat) : Diagnostic :=
  let range := SourceRange.ofBytes s position (position + 1)
  let advice := adviceFor message
  { code := advice.code
    message := message
    help := advice.help
    reference := documentation "grammar"
    range := range
    snippet := range.frame s }

/-- A byte that ends a token under which carets are put. -/
def endsCarets (b : Byte) : Bool :=
  b.isSpace || b == Byte.dot || b == Byte.semicolon || b == Byte.comma || b == Byte.rbrace

/-- The number of bytes of the token at an offset, at least one. -/
def tokenLength (s : Text) (position : Nat) : Nat :=
  max 1 ((s.drop position).takeWhile (!endsCarets ·)).length

/-- The offset of the last opening brace up to an offset. -/
def lastBrace? (s : Text) (position : Nat) : Option Nat :=
  let behind := (s.take (position + 1)).reverse.dropWhile (· != Byte.lbrace)
  if behind.isEmpty then none else some (behind.length - 1)

/-- The opening brace that a missing closing brace refers to. -/
def openedHere (s : Text) (report : ErrorReport) : List RelatedPlace :=
  if mentions report.message "expected \x7d" then
    ((lastBrace? s report.position).map fun offset =>
      (⟨utf8 "group opened here", SourceRange.ofBytes s offset (offset + 1)⟩ :
        RelatedPlace)).toList
  else []

/-- The diagnostic of a name that a declaration would mend. -/
def ofMissingDeclaration (s : Text) (report : ErrorReport) (advice : Advice) (chapter : String) :
    Diagnostic :=
  let stop := report.position + tokenLength s report.position
  let range := SourceRange.ofBytes s report.position stop
  { code := advice.code
    message := report.message
    help := advice.help
    reference := documentation chapter
    range := range
    snippet := range.frame s }

def ofReport (s : Text) (report : ErrorReport) : Diagnostic :=
  match report.kind with
  | .malformed =>
    { ofSyntaxError s report.message report.position with related := openedHere s report }
  | .undeclaredPrefix label =>
    ofMissingDeclaration s report
      ⟨utf8 "SQS-SYN-0010",
        utf8 "Declare the prefix before the query form, e.g. PREFIX " ++ label ++
          utf8 ": <http://example.org/>"⟩
      "prefNames"
  | .missingBase =>
    ofMissingDeclaration s report
      ⟨utf8 "SQS-SYN-0011",
        utf8 "Add a BASE declaration or write the IRI in absolute form."⟩
      "relIRIs"

def relatedLine (place : RelatedPlace) : Text :=
  utf8 "note: " ++ place.message ++ utf8 " (line " ++ Text.ofNat place.range.first.line ++
    utf8 ", col " ++ Text.ofNat place.range.first.column ++ utf8 ")\n"

def render (d : Diagnostic) : Text :=
  utf8 d.severity.name ++ utf8 "[" ++ d.code ++ utf8 "]: " ++ d.message ++ utf8 "\n" ++
    (if d.snippet.isEmpty then [] else d.snippet ++ utf8 "\n") ++
    d.related.flatMap relatedLine ++ utf8 "help: " ++ d.help ++ utf8 "\n"

/-- Diagnostics as blocks with an empty line between them. -/
def renderAll (ds : List Diagnostic) : Text := Text.join [Byte.newline] (ds.map render)

def anyError (ds : List Diagnostic) : Bool := ds.any (·.severity == .error)

end Diagnostic

/-- The diagnostics of a query text; there is none for a text that is a query. -/
def lint (s : Text) : List Diagnostic :=
  match QueryUnit.parse s with
  | .ok _ => []
  | .error e => [Diagnostic.ofReport s e.report]

end SparqlMetrics
