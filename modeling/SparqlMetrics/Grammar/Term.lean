import SparqlMetrics.Grammar.Cursor
import SparqlMetrics.Namespaces

/-!
# The grammar of terms

Reading one term under the declared namespaces: IRIs in both spellings, literals with their tags,
variables and labelled blank nodes, and the blank node of a pair of brackets, which is named by how
many came before it.
-/
namespace SparqlMetrics.Grammar

open SparqlMetrics.Parser

/-- The IRI that the current token spells. -/
def resolvedIri (ns : Namespaces) : Parser Text := do
  let token ← Parser.token
  match token.lexeme with
  | .iri reference =>
    match ns.resolve? reference with
    | some iri => pure iri
    | none => throw ⟨.missingBase reference, token.start⟩
  | .prefixedName label localName =>
    match ns.expand? label localName with
    | some iri => pure iri
    | none => throw ⟨.undeclaredPrefix label, token.start⟩
  | _ => expected .iri

def iriTerm (ns : Namespaces) : Parser Term := do
  let token ← Parser.token
  let iri ← resolvedIri ns
  skip
  pure ⟨.iri iri, ⟨token.start, token.stop⟩⟩

def numberDatatype : NumberKind → Text
  | .integer => Iri.xsdNamespace ++ utf8 "integer"
  | .decimal => Iri.xsdNamespace ++ utf8 "decimal"
  | .double => Iri.xsdNamespace ++ utf8 "double"

def booleanLiteral (value : String) : Literal :=
  { value := utf8 value, datatype := some (Iri.xsdNamespace ++ utf8 "boolean"), short := true }

/-- Reads what follows a string: a language tag, a datatype or nothing. -/
def stringTail (ns : Namespaces) (value : Text) : Parser Literal := do
  match ← lexeme with
  | .languageTag tag =>
    skip
    pure { value := value, language := some tag }
  | .symbol .doubleCaret =>
    skip
    let datatype ← resolvedIri ns
    skip
    pure { value := value, datatype := some datatype }
  | _ => pure { value := value }

/-- Reads the sign of a number, if there is one. -/
def numberSign : Parser Text := do
  let here ← lexeme
  if here == .symbol .minus || here == .symbol .plus then
    if (← followingLexeme).isNumber then
      skip
      pure here.text
    else expected .numberAfterSign
  else pure []

def literalTerm (ns : Namespaces) : Parser Term := do
  let start ← position
  let sign ← numberSign
  let literal : Literal ← match ← lexeme with
    | .string value _ => do
      skip
      stringTail ns value
    | .number kind digits => do
      skip
      pure { value := sign ++ digits, datatype := some (numberDatatype kind), short := true }
    | .keyword .TRUE _ => do
      skip
      pure (booleanLiteral "true")
    | .keyword .FALSE _ => do
      skip
      pure (booleanLiteral "false")
    | _ => expected .literal
  pure ⟨.literal literal, ⟨start, ← position⟩⟩

/-- Reads a variable, an IRI, a labelled blank node or a literal. -/
def varOrTerm (ns : Namespaces) : Parser Term := do
  let token ← Parser.token
  match token.lexeme with
  | .variableName name =>
    skip
    pure ⟨.var name, ⟨token.start, token.stop⟩⟩
  | .blankNodeLabel label =>
    skip
    pure ⟨.blank label, ⟨token.start, token.stop⟩⟩
  | .iri _ => iriTerm ns
  | .prefixedName _ _ => iriTerm ns
  | .string _ _ => literalTerm ns
  | .number _ _ => literalTerm ns
  | .keyword .TRUE _ => literalTerm ns
  | .keyword .FALSE _ => literalTerm ns
  | .symbol .minus => literalTerm ns
  | .symbol .plus => literalTerm ns
  | _ => expected .term

def varOrIri (ns : Namespaces) : Parser Term := do
  match ← lexeme with
  | .variableName _ => varOrTerm ns
  | .iri _ => iriTerm ns
  | .prefixedName _ _ => iriTerm ns
  | _ => expected .variableOrIri

/-- The label of the blank node of a pair of brackets with so many before it. -/
def bracketLabel (before : Nat) : Text := utf8 "genid" ++ Text.ofNat before

/-- Names the blank node of a pair of brackets that opens at a given offset. -/
def freshBlankNode (start : Nat) : Parser Term := fun c =>
  .ok (⟨.blank (bracketLabel c.blankCount), ⟨start, start⟩⟩,
    { c with blankCount := c.blankCount + 1 })

/-- A value of an inline table, or nothing where it is undefined. -/
def dataValue (ns : Namespaces) : Parser (Option Term) := do
  match ← lexeme with
  | .keyword .UNDEF _ =>
    skip
    pure none
  | .iri _ => some <$> iriTerm ns
  | .prefixedName _ _ => some <$> iriTerm ns
  | .string _ _ => some <$> literalTerm ns
  | .number _ _ => some <$> literalTerm ns
  | .keyword .TRUE _ => some <$> literalTerm ns
  | .keyword .FALSE _ => some <$> literalTerm ns
  | .symbol .minus => some <$> literalTerm ns
  | .symbol .plus => some <$> literalTerm ns
  | _ => expected .dataValue

end SparqlMetrics.Grammar
