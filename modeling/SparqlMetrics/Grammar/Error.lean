import SparqlMetrics.Token.Basic
import SparqlMetrics.Text.Numeral

/-!
# Errors of the query grammar

Why a text is no query. A syntax error says what was expected at a place, or what stands there and
does not belong; a lexical fault takes the place of the error raised on its token. A name with an
undeclared label and a relative reference without a base have kinds of their own, because a
declaration in front of the text mends them.
-/
namespace SparqlMetrics

/-- What the grammar expects at a place. -/
inductive Expectation where
  | iriAfterBase | labelAfterPrefix | queryForm | asInSelect | variableAfterAs
  | closeSelectExpression | selectItems | templateTriple | closeTemplate | whereAfterConstruct
  | openAfterWhere | describeTargets | openWhere | havingCondition | byAfterGroup
  | variableAfterAsInGroupBy | closeGroupByExpression | groupingCondition | byAfterOrder
  | orderingCondition | limitNumber | offsetNumber | openGroup | closeGroup | openBind | asInBind
  | variableAfterAsInBind | closeBind | dotBetweenTriples | openAfterValuesVariable
  | valuesVariables | closeValuesVariables | openValuesRows | closeValues | dataValue | predicate
  | closeBlankNode | term | variableOrIri | iri | literal | numberAfterSign | closePathGroup | path
  | closeNegatedSet | openIn | closeIn | existsAfterNot | expression | openExpression
  | closeExpression | constraint | openFunctionCall | closeFunctionCall | openAggregate
  | separatorName | equalAfterSeparator | separatorString | closeAggregate
  deriving DecidableEq, Repr

def Expectation.phrase : Expectation → String
  | .iriAfterBase => "IRI after BASE"
  | .labelAfterPrefix => "prefix name like 'ex:' after PREFIX"
  | .queryForm => "SELECT, CONSTRUCT, DESCRIBE or ASK"
  | .asInSelect => "AS in SELECT expression"
  | .variableAfterAs => "variable after AS"
  | .closeSelectExpression => ") after SELECT expression"
  | .selectItems => "variables or * after SELECT"
  | .templateTriple => "triple pattern or \x7d in template"
  | .closeTemplate => "\x7d to close template"
  | .whereAfterConstruct => "\x7b or WHERE after CONSTRUCT"
  | .openAfterWhere => "\x7b after WHERE"
  | .describeTargets => "variables, IRIs or * after DESCRIBE"
  | .openWhere => "\x7b to start WHERE clause"
  | .havingCondition => "condition after HAVING"
  | .byAfterGroup => "BY after GROUP"
  | .variableAfterAsInGroupBy => "variable after AS in GROUP BY"
  | .closeGroupByExpression => ") after GROUP BY expression"
  | .groupingCondition => "grouping condition after GROUP BY"
  | .byAfterOrder => "BY after ORDER"
  | .orderingCondition => "ordering condition after ORDER BY"
  | .limitNumber => "non-negative integer after LIMIT"
  | .offsetNumber => "non-negative integer after OFFSET"
  | .openGroup => "\x7b to start group graph pattern"
  | .closeGroup => "\x7d to close group graph pattern"
  | .openBind => "( after BIND"
  | .asInBind => "AS in BIND"
  | .variableAfterAsInBind => "variable after AS in BIND"
  | .closeBind => ") to close BIND"
  | .dotBetweenTriples => ". between triple patterns"
  | .openAfterValuesVariable => "\x7b after VALUES variable"
  | .valuesVariables => "variable or ( after VALUES"
  | .closeValuesVariables => ") after VALUES variables"
  | .openValuesRows => "\x7b to open VALUES rows"
  | .closeValues => "\x7d to close VALUES block"
  | .dataValue => "IRI, literal or UNDEF in VALUES"
  | .predicate => "predicate after subject"
  | .closeBlankNode => "] to close blank node property list"
  | .term => "variable, IRI, blank node or literal"
  | .variableOrIri => "variable or IRI"
  | .iri => "IRI"
  | .literal => "literal"
  | .numberAfterSign => "number after sign"
  | .closePathGroup => ") to close property path group"
  | .path => "property path"
  | .closeNegatedSet => ") to close negated property set"
  | .openIn => "( after IN"
  | .closeIn => ") to close IN list"
  | .existsAfterNot => "EXISTS after NOT"
  | .expression => "expression"
  | .openExpression => "( to open expression"
  | .closeExpression => ") to close expression"
  | .constraint => "bracketted expression or function call"
  | .openFunctionCall => "( after function name"
  | .closeFunctionCall => ") to close function call"
  | .openAggregate => "( after aggregate name"
  | .separatorName => "SEPARATOR in GROUP_CONCAT"
  | .equalAfterSeparator => "= after SEPARATOR"
  | .separatorString => "string after SEPARATOR ="
  | .closeAggregate => ") to close aggregate"

inductive CountClause where
  | limit | offset
  deriving DecidableEq, Repr

namespace CountClause

def name : CountClause → String
  | .limit => "LIMIT"
  | .offset => "OFFSET"

def expectation : CountClause → Expectation
  | .limit => .limitNumber
  | .offset => .offsetNumber

end CountClause

inductive Malformed where
  /-- No token can be read. -/
  | lexical (fault : LexicalFault)
  | expected (e : Expectation)
  | iriAfterLabel (label : Text)
  | trailingToken (found : Text)
  | unexpectedInGroup (description : Text)
  | unknownIdentifier (name : Text)
  | duplicateClause (clause : CountClause)
  | numberTooLarge (clause : CountClause)
  | rowWidth (cells columns : Nat)
  | pathInTemplate
  | collection
  | nestingTooDeep
  deriving DecidableEq, Repr

/-- The deepest nesting of groups, blank node lists, path groups and expressions. -/
def maxNesting : Nat := 256

def Malformed.message : Malformed → Text
  | .lexical fault => fault.message
  | .expected e => utf8 "Expected " ++ utf8 e.phrase
  | .iriAfterLabel label => utf8 "Expected IRI after PREFIX " ++ label ++ utf8 ":"
  | .trailingToken found => utf8 "Unexpected token after query: '" ++ found ++ utf8 "'"
  | .unexpectedInGroup description =>
    utf8 "Unexpected " ++ description ++ utf8 " in group graph pattern"
  | .unknownIdentifier name => utf8 "Unknown identifier '" ++ name ++ utf8 "' in expression"
  | .duplicateClause clause => utf8 "Duplicate " ++ utf8 clause.name ++ utf8 " clause"
  | .numberTooLarge clause => utf8 clause.name ++ utf8 " value is out of range"
  | .rowWidth cells columns =>
    utf8 "VALUES row has " ++ Text.ofNat cells ++ utf8 " values but " ++ Text.ofNat columns ++
      utf8 " variables"
  | .pathInTemplate => utf8 "Property paths are not allowed in CONSTRUCT templates"
  | .collection => utf8 "RDF collections are not supported"
  | .nestingTooDeep => utf8 "Query nesting exceeds " ++ Text.ofNat maxNesting ++ utf8 " levels"

inductive ParseFailure where
  | malformed (cause : Malformed)
  | undeclaredPrefix (label : Text)
  | missingBase (reference : Text)
  deriving DecidableEq, Repr

def ParseFailure.message : ParseFailure → Text
  | .malformed cause => cause.message
  | .undeclaredPrefix label => utf8 "Undeclared prefix '" ++ label ++ utf8 ":'"
  | .missingBase reference =>
    utf8 "Relative IRI <" ++ reference ++ utf8 "> requires a BASE declaration"

/-- A failure and the byte offset where it is reported. -/
structure ParseError where
  failure : ParseFailure
  position : Nat
  deriving DecidableEq, Repr

/-- The three kinds of failure, the second one with the undeclared label. -/
inductive ErrorKind where
  | malformed
  | undeclaredPrefix (label : Text)
  | missingBase
  deriving DecidableEq, Repr

/-- A failure in words, as it is shown and kept. -/
structure ErrorReport where
  kind : ErrorKind
  message : Text
  position : Nat
  deriving DecidableEq, Repr

def ParseFailure.kind : ParseFailure → ErrorKind
  | .malformed _ => .malformed
  | .undeclaredPrefix label => .undeclaredPrefix label
  | .missingBase _ => .missingBase

/-- An error in words. -/
def ParseError.report (e : ParseError) : ErrorReport :=
  ⟨e.failure.kind, e.failure.message, e.position⟩

end SparqlMetrics
