import SparqlMetrics.Algebra.Query
import SparqlMetrics.Grammar.Cursor

/-!
# Nesting levels

Groups, blank node lists, path groups and the operands of expressions nest. A level holds the readers
of the next level further in, so the grammar is written without recursion through these four and tied
together by recursion on the nesting that is still allowed. One cycle of the grammar passes through
none of them: the items of a `[NOT] IN` list are expressions at the level of the test.
-/
namespace SparqlMetrics.Grammar

/-- What a reader may use: the declared namespaces and the readers one level further in. -/
structure Level where
  namespaces : Namespaces
  /-- Reads an operand with its prefix operators. -/
  operand : Parser Expression
  /-- Reads a group between braces as a group of a given kind. -/
  group : GroupKind → Parser Group
  /-- Reads a path between round brackets. -/
  pathGroup : Parser Path
  /-- Reads a blank node between square brackets and the triples of its properties. -/
  blankNode : Parser (Term × List Element)

/-- The level at which nothing may nest any more. -/
def Level.exhausted (ns : Namespaces) : Level where
  namespaces := ns
  operand := Parser.fail .nestingTooDeep
  group := fun _ => Parser.fail .nestingTooDeep
  pathGroup := Parser.fail .nestingTooDeep
  blankNode := Parser.fail .nestingTooDeep

end SparqlMetrics.Grammar
