import SparqlMetrics.Algebra.ResultVariables
import SparqlMetrics.Grammar.Expression
import SparqlMetrics.Grammar.Triples

/-!
# The grammar of query clauses

The clauses of a query around its pattern: what it selects, describes or constructs, the graphs of
its dataset, its solution modifiers and a trailing table. A nested selection is made of the same
clauses as a whole query, without a dataset.
-/
namespace SparqlMetrics.Grammar

open SparqlMetrics.Parser

/-- Reads a bracketed expression under a name in a projection. -/
def namedProjection (level : Level) : Parser Projection := do
  let start ← position
  skip
  let value ← expression level
  keyword .AS .asInSelect
  let name ← variableName .variableAfterAs
  mark .rparen .closeSelectExpression
  pure ⟨name, some value, ⟨start, ← position⟩⟩

def projection? (level : Level) : Parser (Option Projection) := do
  let token ← Parser.token
  match token.lexeme with
  | .variableName name =>
    skip
    pure (some ⟨name, none, ⟨token.start, token.stop⟩⟩)
  | .symbol .lparen => some <$> namedProjection level
  | _ => pure none

def selectModifier : Parser SelectModifier := do
  if ← tryKeyword .DISTINCT then pure .distinct
  else if ← tryKeyword .REDUCED then pure .reduced
  else pure .none

def selectClause (level : Level) : Parser Form := do
  skip
  let modifier ← selectModifier
  if ← tryMark .star then pure (.select modifier true [])
  else
    let items ← many (projection? level)
    if items.isEmpty then expected .selectItems else pure (.select modifier false items)

/-- Reads the triples of a template up to its closing brace. They are separated by dots. -/
def templateTriples? (level : Level) (awaited : Bool) : Parser (Option (Bool × List Element)) := do
  if !awaited || (← isAt .rbrace) then pure none
  else if ← atTriples then
    let triples ← triplesSameSubject level
    pure (some (← tryMark .dot, triples))
  else expected .templateTriple

/-- Reads a template behind its opening brace. -/
def template (level : Level) : Parser (List Element) := do
  let (_, elements) ← repeatFrom (fun (more, elements) => do
    match ← templateTriples? level more with
    | some (more, triples) => pure (some (more, elements ++ triples))
    | none => pure none) (true, ([] : List Element))
  mark .rbrace .closeTemplate
  pure elements

/-- Reads a variable or an IRI to be described. -/
def describeTarget? (ns : Namespaces) : Parser (Option Term) := do
  match ← lexeme with
  | .variableName _ => some <$> varOrIri ns
  | .iri _ => some <$> varOrIri ns
  | .prefixedName _ _ => some <$> varOrIri ns
  | _ => pure none

def describeClause (ns : Namespaces) : Parser Form := do
  skip
  if ← tryMark .star then pure (.describe true [])
  else
    let targets ← many (describeTarget? ns)
    if targets.isEmpty then expected .describeTargets else pure (.describe false targets)

def datasetClause? (ns : Namespaces) : Parser (Option DatasetClause) := do
  if ← tryKeyword .FROM then
    let named ← tryKeyword .NAMED
    let iri ← resolvedIri ns
    skip
    pure (some ⟨iri, named⟩)
  else pure none

/-- Reads the pattern of a query; the keyword in front of it may be left out. -/
def whereClause (level : Level) : Parser Group := do
  let _ ← tryKeyword .WHERE
  if ← isAt .lbrace then level.group .group else expected .openWhere

def variableCondition (ns : Namespaces) : Parser Expression := do
  let t ← varOrTerm ns
  pure (.term t t.span)

/-- Reads the name of a bracketed grouping condition. -/
def conditionName? : Parser (Option Text) := do
  if ← tryKeyword .AS then some <$> variableName .variableAfterAsInGroupBy else pure none

def groupCondition? (level : Level) : Parser (Option GroupCondition) := do
  match ← lexeme with
  | .variableName _ => return some ⟨← variableCondition level.namespaces, none⟩
  | .symbol .lparen =>
    skip
    let value ← expression level
    let name ← conditionName?
    mark .rparen .closeGroupByExpression
    pure (some ⟨value, name⟩)
  | _ =>
    if ← atConstraint then return some ⟨← constraint level, none⟩
    else pure none

def groupClause (level : Level) : Parser (List GroupCondition) := do
  if ← tryKeyword .GROUP then
    keyword .BY .byAfterGroup
    let conditions ← many (groupCondition? level)
    if conditions.isEmpty then expected .groupingCondition else pure conditions
  else pure []

def havingClause (level : Level) : Parser (List Expression) := do
  if ← tryKeyword .HAVING then
    let conditions ← many do
      if ← atConstraint then some <$> constraint level else pure none
    if conditions.isEmpty then expected .havingCondition else pure conditions
  else pure []

def orderCondition? (level : Level) : Parser (Option OrderCondition) := do
  match ← lexeme with
  | .keyword .ASC _ =>
    skip
    return some ⟨← bracketedExpression level, .ascending⟩
  | .keyword .DESC _ =>
    skip
    return some ⟨← bracketedExpression level, .descending⟩
  | .variableName _ => return some ⟨← variableCondition level.namespaces, .unmarked⟩
  | _ =>
    if ← atConstraint then return some ⟨← constraint level, .unmarked⟩
    else pure none

def orderClause (level : Level) : Parser (List OrderCondition) := do
  if ← tryKeyword .ORDER then
    keyword .BY .byAfterOrder
    let conditions ← many (orderCondition? level)
    if conditions.isEmpty then expected .orderingCondition else pure conditions
  else pure []

/-- Reads the number of a clause. -/
def count (clause : CountClause) : Parser Int := do
  match ← lexeme with
  | .number .integer digits =>
    if (Text.digitsValue digits : Int) ≤ Text.maxInt64 then
      skip
      pure (Text.digitsValue digits)
    else fail (.numberTooLarge clause)
  | _ => expected clause.expectation

structure Bounds where
  limit : Option Int := none
  offset : Option Int := none

/-- Reads the number of a clause that has none yet. -/
def countOnce (clause : CountClause) (known : Option Int) : Parser Int := do
  if known.isSome then fail (.duplicateClause clause)
  else
    skip
    count clause

/-- Reads a LIMIT or OFFSET clause, if one is here. -/
def bound? (bounds : Bounds) : Parser (Option Bounds) := do
  if ← isAtKeyword .LIMIT then
    return some { bounds with limit := some (← countOnce .limit bounds.limit) }
  else if ← isAtKeyword .OFFSET then
    return some { bounds with offset := some (← countOnce .offset bounds.offset) }
  else pure none

structure Modifiers where
  groupBy : List GroupCondition
  having : List Expression
  orderBy : List OrderCondition
  bounds : Bounds

def modifiers (level : Level) : Parser Modifiers := do
  let groupBy ← groupClause level
  let having ← havingClause level
  let orderBy ← orderClause level
  let bounds ← repeatFrom bound? {}
  pure { groupBy, having, orderBy, bounds }

/-- Reads a trailing table, if there is one. -/
def trailingValues (ns : Namespaces) : Parser (Option InlineData) := do
  if ← tryKeyword .VALUES then some <$> inlineData ns else pure none

/-- The query that its clauses make up. The columns of a trailing table count among the result
variables where `inScope` has them. -/
def assemble (form : Form) (dataset : List DatasetClause) (root : Group) (m : Modifiers)
    (inScope values : Option InlineData) (span : Span) : Query where
  form := form
  resultVariables := form.resultVariables root inScope
  dataset := dataset
  root := root
  groupBy := m.groupBy
  having := m.having
  orderBy := m.orderBy
  limit := m.bounds.limit
  offset := m.bounds.offset
  values := values
  span := span

/-- Reads a nested selection. Its trailing table belongs to its scope. -/
def subSelect (level : Level) : Parser Query := do
  let start ← position
  let form ← selectClause level
  let root ← whereClause level
  let m ← modifiers level
  let values ← trailingValues level.namespaces
  pure (assemble form [] root m values values ⟨start, ← position⟩)

end SparqlMetrics.Grammar
