import SparqlMetrics.Grammar.Clauses

/-!
# The grammar of groups

A group between braces is a nested selection or a sequence of triples, filters, bindings, tables and
groups of every kind, which dots may separate. The first table of a group is its own; every later
one gets a child group. Groups joined by UNION become the children of one union group.
-/
namespace SparqlMetrics.Grammar

open SparqlMetrics.Parser

/-- A group under construction, its members kept in writing order. -/
structure Draft where
  elements : List Element := []
  children : List Group := []
  data : Option InlineData := none

namespace Draft

def addElements (d : Draft) (elements : List Element) : Draft :=
  { d with elements := d.elements ++ elements }

def addChild (d : Draft) (child : Group) : Draft := { d with children := d.children ++ [child] }

def addData (d : Draft) (data : InlineData) : Draft :=
  match d.data with
  | none => { d with data := some data }
  | some _ => d.addChild ⟨.group, [], [], some data, data.span⟩

def group (d : Draft) (kind : GroupKind) (span : Span) : Group :=
  ⟨kind, d.elements, d.children, d.data, span⟩

end Draft

def moreAlternatives (level : Level) : Parser (List Group) :=
  many do
    if ← tryKeyword .UNION then some <$> level.group .group else pure none

/-- Reads a group, or a union of groups when the keyword follows it. -/
def groupOrUnion (level : Level) : Parser Group := do
  let first ← level.group .group
  let more ← moreAlternatives level
  if more.isEmpty then pure first
  else pure ⟨.union, [], first :: more, none, ⟨first.span.start, ← position⟩⟩

def filter (level : Level) : Parser Element := do
  let start ← position
  skip
  let condition ← constraint level
  pure (.filter condition ⟨start, ← position⟩)

/-- Reads the variable that a binding sets. -/
def bindTarget (ns : Namespaces) : Parser Term := do
  match ← lexeme with
  | .variableName _ => varOrTerm ns
  | _ => expected .variableAfterAsInBind

def binding (level : Level) : Parser Element := do
  let start ← position
  skip
  mark .lparen .openBind
  let value ← expression level
  keyword .AS .asInBind
  let target ← bindTarget level.namespaces
  mark .rparen .closeBind
  pure (.bind value target ⟨start, ← position⟩)

/-- Reads the kind of a group that names a graph or a service, behind its keyword. -/
def namedGroup (level : Level) (kind : Term → GroupKind) : Parser Group := do
  let name ← varOrIri level.namespaces
  level.group (kind name)

def serviceGroup (level : Level) : Parser Group := do
  let silent ← tryKeyword .SILENT
  namedGroup level fun endpoint => .service (some endpoint) silent

def triplesBlock (level : Level) : Parser (List Element) := do
  let here ← lexeme
  if ← atTriples then
    let triples ← triplesSameSubject level
    if ← tryMark .dot then pure triples
    else if ← atTriples then expected .dotBetweenTriples
    else pure triples
  else fail (.unexpectedInGroup here.describe)

/-- Reads the next member of a group into its draft, up to the closing brace. -/
def member? (level : Level) (d : Draft) : Parser (Option Draft) := do
  match ← lexeme with
  | .symbol .rbrace => pure none
  | .endOfInput => pure none
  | .symbol .dot =>
    skip
    pure (some d)
  | .symbol .lbrace => return some (d.addChild (← groupOrUnion level))
  | .keyword .OPTIONAL _ =>
    skip
    return some (d.addChild (← level.group .optional))
  | .keyword .MINUS _ =>
    skip
    return some (d.addChild (← level.group .minus))
  | .keyword .GRAPH _ =>
    skip
    return some (d.addChild (← namedGroup level fun name => .graph (some name)))
  | .keyword .SERVICE _ =>
    skip
    return some (d.addChild (← serviceGroup level))
  | .keyword .FILTER _ => return some (d.addElements [← filter level])
  | .keyword .BIND _ => return some (d.addElements [← binding level])
  | .keyword .VALUES _ =>
    skip
    return some (d.addData (← inlineData level.namespaces))
  | _ => return some (d.addElements (← triplesBlock level))

/-- Reads what a group holds: a nested selection or its members. -/
def groupContent (level : Level) : Parser Draft := do
  if ← isAtKeyword .SELECT then
    let start ← position
    let query ← subSelect level
    pure { elements := [.subquery (some query) ⟨start, ← position⟩] }
  else repeatFrom (member? level) {}

/-- Reads a group between braces, given the level inside them. -/
def bracedGroup (inner : Level) (kind : GroupKind) : Parser Group := do
  let start ← position
  mark .lbrace .openGroup
  let content ← groupContent inner
  mark .rbrace .closeGroup
  pure (content.group kind ⟨start, ← position⟩)

end SparqlMetrics.Grammar
