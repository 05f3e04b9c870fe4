import SparqlMetrics.Grammar.Group

/-!
# The grammar of whole queries

A query text is a prologue, a query of one of the four forms, and an optional table at its end,
which is not in the scope of its result variables. The levels of nesting are tied together here, and
a text is read from its tokens. Main definition: `QueryUnit.parse`.
-/
namespace SparqlMetrics.Grammar

open SparqlMetrics.Parser

/-- The level at which a given number of nestings is still allowed. -/
def Level.ofAllowance (ns : Namespaces) : Nat → Level
  | 0 => .exhausted ns
  | allowance + 1 =>
    let inner := Level.ofAllowance ns allowance
    { namespaces := ns
      operand := operandWithin inner
      group := bracedGroup inner
      pathGroup := bracketedPath inner
      blankNode := bracketedBlankNode inner }

def Level.outermost (ns : Namespaces) : Level := .ofAllowance ns maxNesting

/-- The reference of the current token as an absolute IRI, or an error when none is here. -/
def declaredIri (ns : Namespaces) (missing : Malformed) : Parser Text := do
  match ← lexeme with
  | .iri _ =>
    let iri ← resolvedIri ns
    skip
    pure iri
  | _ => fail missing

/-- The label that a prefixed name declares: what stands before the colon that ends it. -/
def declaredLabel? : Lexeme → Option Text
  | .prefixedName label [] => some label
  | .prefixedName label localName =>
    if localName.getLast? = some Byte.colon then
      some (label ++ Byte.colon :: localName.dropLast)
    else none
  | _ => none

/-- Reads the label of a declaration. -/
def declaredLabel : Parser Text := do
  match declaredLabel? (← lexeme) with
  | some label =>
    skip
    pure label
  | none => expected .labelAfterPrefix

/-- Reads the next declaration into the known ones. -/
def declaration? (ns : Namespaces) : Parser (Option Namespaces) := do
  if ← tryKeyword .BASE then
    let iri ← declaredIri ns (.expected .iriAfterBase)
    pure (some { ns with base := some iri })
  else if ← tryKeyword .PREFIX then
    let label ← declaredLabel
    let iri ← declaredIri ns (.iriAfterLabel label)
    pure (some (ns.declare label iri))
  else pure none

def prologue : Parser Namespaces := repeatFrom declaration? {}

/-- What a query form reads up to its solution modifiers. -/
structure Body where
  form : Form
  dataset : List DatasetClause
  root : Group

def datasetClauses (ns : Namespaces) : Parser (List DatasetClause) := many (datasetClause? ns)

/-- The triples of a template, or an error if one has a proper path. -/
def templateOf : List Element → Parser (List Triple)
  | [] => pure []
  | .triple t :: rest => return t :: (← templateOf rest)
  | _ :: _ => fail .pathInTemplate

def selectBody (level : Level) : Parser Body := do
  let form ← selectClause level
  let dataset ← datasetClauses level.namespaces
  let root ← whereClause level
  pure ⟨form, dataset, root⟩

def askBody (level : Level) : Parser Body := do
  skip
  let dataset ← datasetClauses level.namespaces
  let root ← whereClause level
  pure ⟨.ask, dataset, root⟩

/-- Reads the body of a DESCRIBE query, which may have no pattern. -/
def describeBody (level : Level) : Parser Body := do
  let form ← describeClause level.namespaces
  let dataset ← datasetClauses level.namespaces
  if (← isAtKeyword .WHERE) || (← isAt .lbrace) then
    let root ← whereClause level
    pure ⟨form, dataset, root⟩
  else pure ⟨form, dataset, .empty .group⟩

/-- Reads the body of a CONSTRUCT query with a template of its own. -/
def constructBody (level : Level) : Parser Body := do
  skip
  let elements ← template level
  let dataset ← datasetClauses level.namespaces
  let root ← whereClause level
  pure ⟨.construct (← templateOf elements), dataset, root⟩

/-- Reads the body of a CONSTRUCT query whose pattern is its template. -/
def constructWhereBody (level : Level) : Parser Body := do
  let dataset ← datasetClauses level.namespaces
  keyword .WHERE .whereAfterConstruct
  let start ← position
  mark .lbrace .openAfterWhere
  let elements ← template level
  let root : Group := ⟨.group, elements, [], none, ⟨start, ← position⟩⟩
  pure ⟨.construct (← templateOf elements), dataset, root⟩

def body (level : Level) : Parser Body := do
  match (← lexeme).keyword? with
  | some .SELECT => selectBody level
  | some .CONSTRUCT =>
    skip
    if ← isAt .lbrace then constructBody level else constructWhereBody level
  | some .DESCRIBE => describeBody level
  | some .ASK => askBody level
  | _ => expected .queryForm

/-- Stops unless the input ends here. -/
def endOfText : Parser Unit := do
  match ← lexeme with
  | .endOfInput => pure ()
  | here => fail (.trailingToken here.text)

/-- Reads a whole text. -/
def queryUnit : Parser QueryUnit := do
  let ns ← prologue
  let level := Level.outermost ns
  let b ← body level
  let m ← modifiers level
  let values ← trailingValues ns
  endOfText
  let span : Span := ⟨0, ← position⟩
  pure ⟨ns, assemble b.form b.dataset b.root m none values span⟩

end SparqlMetrics.Grammar

namespace SparqlMetrics

/-- Reads a query text, or finds the first reason why it is none. -/
def QueryUnit.parse (s : Text) : Except ParseError QueryUnit :=
  match Grammar.queryUnit (Cursor.ofStream (TokenStream.ofText s)) with
  | .ok (unit, _) => .ok unit
  | .error e => .error e

end SparqlMetrics
