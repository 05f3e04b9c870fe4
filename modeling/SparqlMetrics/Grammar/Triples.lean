import SparqlMetrics.Grammar.Path

/-!
# The grammar of triples and inline tables

A subject carries a list of properties, a property a list of objects. A blank node between brackets
stands for itself; the triples of its properties come before the triple it takes part in. A table of
values has a single column or a bracketed list of them, and each row as many cells as there are
columns.
-/
namespace SparqlMetrics.Grammar

open SparqlMetrics.Parser

/-- Whether triples open at a lexeme with a given one behind it. -/
def startsTriples (here following : Lexeme) : Bool :=
  match here with
  | .variableName _ => true
  | .iri _ => true
  | .prefixedName _ _ => true
  | .blankNodeLabel _ => true
  | .string _ _ => true
  | .number _ _ => true
  | .keyword .TRUE _ => true
  | .keyword .FALSE _ => true
  | .symbol .lbracket => true
  | .symbol .lparen => true
  | .symbol .minus => following.isNumber
  | .symbol .plus => following.isNumber
  | _ => false

/-- Whether triples open at the current token. -/
def atTriples : Parser Bool := do
  return startsTriples (← lexeme) (← followingLexeme)

/-- The element that joins a subject and an object by a verb. -/
def Verb.element (subject object : Term) (span : Span) : Verb → Element
  | .term predicate => .triple ⟨subject, predicate, object, span⟩
  | .path p => .path subject p object span

/-- Reads an object, with the triples of its properties when it is a bracketed blank node. -/
def object (level : Level) : Parser (Term × List Element) := do
  match ← lexeme with
  | .symbol .lbracket => level.blankNode
  | .symbol .lparen => fail .collection
  | _ => return (← varOrTerm level.namespaces, [])

/-- Reads an object and returns its triples and the one it belongs to. -/
def objectElements (level : Level) (subject : Term) (v : Verb) : Parser (List Element) := do
  let (target, nested) ← object level
  pure (nested ++ [v.element subject target ⟨subject.span.start, ← position⟩])

def property (level : Level) (subject : Term) : Parser (List Element) := do
  let v ← verb level
  let first ← objectElements level subject v
  let more ← many do
    if ← tryMark .comma then some <$> objectElements level subject v else pure none
  pure (first ++ more.flatten)

/-- Passes over semicolons; none of them asks for a property behind it. -/
def skipSemicolons : Parser Unit := do
  let _ ← many do
    if ← tryMark .semicolon then pure (some ()) else pure none

def nextProperty (level : Level) (subject : Term) : Parser (Option (List Element)) := do
  if ← isAt .semicolon then
    skipSemicolons
    if startsVerb (← lexeme) then some <$> property level subject else pure none
  else pure none

/-- Reads the properties of a subject; there may be none unless one is required. -/
def propertyList (level : Level) (subject : Term) (required : Bool) : Parser (List Element) := do
  if startsVerb (← lexeme) then
    let first ← property level subject
    let more ← many (nextProperty level subject)
    pure (first ++ more.flatten)
  else if required then expected .predicate
  else pure []

/-- A term with the end of its span set. -/
def endingAt (t : Term) (stop : Nat) : Term := { t with span := { t.span with stop := stop } }

/-- Reads a blank node between brackets, given the level inside them. -/
def bracketedBlankNode (inner : Level) : Parser (Term × List Element) := do
  let start ← position
  skip
  let node ← freshBlankNode start
  if ← tryMark .rbracket then
    pure (endingAt node (← position), [])
  else
    let properties ← propertyList inner node true
    mark .rbracket .closeBlankNode
    pure (endingAt node (← position), properties)

/-- Reads a subject with its properties. A blank node that has properties between its brackets needs
none behind them. -/
def triplesSameSubject (level : Level) : Parser (List Element) := do
  match ← lexeme with
  | .symbol .lparen => fail .collection
  | .symbol .lbracket =>
    let anonymous := (← followingLexeme) == .symbol .rbracket
    let (subject, nested) ← level.blankNode
    let properties ← propertyList level subject anonymous
    pure (nested ++ properties)
  | _ =>
    let subject ← varOrTerm level.namespaces
    propertyList level subject true

/-- Reads values up to a closing mark and passes over it. -/
def valuesUpTo (ns : Namespaces) (closing : Symbol) : Parser (List (Option Term)) := do
  let cells ← many do
    if ← isAt closing then pure none else some <$> dataValue ns
  skip
  pure cells

/-- Reads one row of a table with a given number of columns. -/
def row (ns : Namespaces) (columns : Nat) : Parser (Option (List (Option Term))) := do
  if ← tryMark .lparen then
    let cells ← valuesUpTo ns .rparen
    if cells.length = columns then pure (some cells)
    else fail (.rowWidth cells.length columns)
  else pure none

def column? : Parser (Option Text) := do
  match ← lexeme with
  | .variableName name =>
    skip
    pure (some name)
  | _ => pure none

def inlineData (ns : Namespaces) : Parser InlineData := do
  let start ← position
  match ← lexeme with
  | .variableName name =>
    skip
    mark .lbrace .openAfterValuesVariable
    let cells ← valuesUpTo ns .rbrace
    pure ⟨[name], cells.map fun cell => [cell], ⟨start, ← position⟩⟩
  | .symbol .lparen =>
    skip
    let columns ← many column?
    mark .rparen .closeValuesVariables
    mark .lbrace .openValuesRows
    let rows ← many (row ns columns.length)
    mark .rbrace .closeValues
    pure ⟨columns, rows, ⟨start, ← position⟩⟩
  | _ => expected .valuesVariables

end SparqlMetrics.Grammar
