import SparqlMetrics.Grammar.Unit
import SparqlMetrics.Proofs.Token.Spelling
import SparqlMetrics.Proofs.Tree.Everywhere

/-!
# Legal trees

The trees that the grammar writes are fewer than the types admit. `wellFormedChecks` says which
operands, patterns and children the nodes of such a tree have. `legalChecks` asks for that and for
all that reading the written form of a tree relies on: how names, labels and numbers are spelled,
that IRIs are absolute, and which terms stand where.
-/
namespace SparqlMetrics

def Node.isVar : Node → Bool
  | .var _ => true
  | _ => false

def Node.isBlank : Node → Bool
  | .blank _ => true
  | _ => false

namespace Path

/-- A step along an IRI or the inverse of one. -/
def IsMember : Path → Prop
  | .step predicate => predicate.node.isIri = true
  | .inverse (.step predicate) => predicate.node.isIri = true
  | _ => False

/-- Members joined to the left as alternatives. -/
def IsMemberChain : Path → Prop
  | .join .alternative left right => left.IsMemberChain ∧ right.IsMember
  | p => p.IsMember

/-- A path with its steps along IRIs; a negated set holds members or the placeholder. -/
def IsFormed : Path → Prop
  | .step predicate => predicate.node.isIri = true
  | .inverse inner => inner.IsFormed
  | .repeated _ inner => inner.IsFormed
  | .negated inner => inner = .placeholder ∨ inner.IsMemberChain
  | .join _ left right => left.IsFormed ∧ right.IsFormed

def isStep : Path → Bool
  | .step _ => true
  | _ => false

def iris : Path → List Text
  | .step ⟨.iri value, _⟩ => [value]
  | .step _ => []
  | .inverse inner => inner.iris
  | .repeated _ inner => inner.iris
  | .negated inner => inner.iris
  | .join _ left right => left.iris ++ right.iris

end Path

def prefixOperators : List Symbol := [.bang, .plus, .minus]

def binaryOperators : List Symbol := [
  .orOr, .andAnd, .equal, .notEqual, .less, .lessEqual, .greater, .greaterEqual, .plus, .minus,
  .star, .slash]

namespace Expression

/-- Whether an expression has the operands and the pattern that belong to it. -/
def IsWellFormed : Expression → Prop
  | .term _ _ => True
  | .unary op args _ => op ∈ prefixOperators.map Symbol.text ∧ args.length = 1
  | .binary op args _ => op ∈ binaryOperators.map Symbol.text ∧ args.length = 2
  | .call (.builtin name) _ _ _ => name ≠ []
  | .call (.iri function) _ _ _ => function.node.isIri = true
  | .aggregate name _ star args separator _ =>
    (if star then name = utf8 "COUNT" ∧ args = [] else args.length = 1) ∧
      (separator.isSome = true → name = utf8 "GROUP_CONCAT")
  | .member _ args _ => args ≠ []
  | .exists _ pattern _ => pattern.isSome = true

end Expression

/-- Whether a literal has at most one of a language and a datatype. -/
def Literal.IsWellFormed (l : Literal) : Prop := l.language = none ∨ l.datatype = none

def Term.IsWellFormed (t : Term) : Prop := ∀ l, t.node = .literal l → l.IsWellFormed

/-- Whether the rows of a table are as wide as its columns are many. -/
def InlineData.IsWellFormed (d : InlineData) : Prop := ∀ row ∈ d.rows, row.length = d.columns.length

/-- Whether a predicate is an IRI or a variable. -/
def Triple.IsWellFormed (t : Triple) : Prop :=
  t.predicate.node.isIri = true ∨ t.predicate.node.isVar = true

/-- Whether a triple has a term and a path element a proper path as its predicate. -/
def Element.IsWellFormed : Element → Prop
  | .triple t => t.IsWellFormed
  | .path _ p _ _ => p.isStep = false ∧ p.IsFormed
  | _ => True

/-- Whether a union has two alternatives at least, and no content besides. -/
def Group.IsWellFormed (g : Group) : Prop :=
  g.kind = .union → g.elements = [] ∧ g.data = none ∧ 2 ≤ g.children.length

/-- Whether the triples of a template have terms as predicates. -/
def Query.IsWellFormed (q : Query) : Prop :=
  ∀ template, q.form = .construct template → ∀ t ∈ template, t.IsWellFormed

/-- The check that nodes have the parts that belong to them. -/
def wellFormedChecks : NodeChecks where
  term := Term.IsWellFormed
  data := InlineData.IsWellFormed
  expression := Expression.IsWellFormed
  element := Element.IsWellFormed
  group := Group.IsWellFormed
  query := Query.IsWellFormed

/-- The literals that are read; where no sign may stand, numbers have none. -/
inductive Literal.Legal (signed : Bool) : Literal → Prop
  | plain (value : Text) : Legal signed { value }
  | tagged (value : Text) {tag : Text} : IsLanguageTag tag →
      Legal signed { value, language := some tag }
  | typed (value : Text) {datatype : Text} : Iri.hasScheme datatype = true →
      Legal signed { value, datatype := some datatype }
  | number {sign digits : Text} {kind : NumberKind} : IsSign sign → (signed = false → sign = []) →
      IsNumeral kind digits →
      Legal signed
        { value := sign ++ digits, datatype := some (Grammar.numberDatatype kind), short := true }
  | truth : Legal signed (Grammar.booleanLiteral "true")
  | falsehood : Legal signed (Grammar.booleanLiteral "false")

/-- The nodes that are read. -/
def Node.Legal (signed : Bool) : Node → Prop
  | .iri value => Iri.hasScheme value = true
  | .literal l => l.Legal signed
  | .blank label => IsBlankLabel label
  | .var name => IsVariableName name

/-- A capital name of a function that is neither a keyword nor an aggregate. -/
def IsFunctionName (name : Text) : Prop :=
  IsWord name ∧ name.toUpper = name ∧ Keyword.ofCapitals? name = none ∧
    Grammar.isAggregateName name = false

namespace Expression

def Legal : Expression → Prop
  | .term t _ => t.node.Legal false ∧ t.node.isBlank = false
  | .call (.builtin name) distinct _ _ => IsFunctionName name ∧ distinct = false
  | .aggregate name _ _ _ _ _ => Grammar.isAggregateName name = true
  | .exists _ (some pattern) _ => pattern.kind = .group
  | _ => True

end Expression

def InlineData.Legal (d : InlineData) : Prop :=
  (∀ name ∈ d.columns, IsVariableName name) ∧
    ∀ row ∈ d.rows, ∀ t, some t ∈ row → t.node.isResource = true

def Query.IsSubSelect (q : Query) : Prop :=
  (∃ modifier everything items, q.form = .select modifier everything items) ∧ q.dataset = [] ∧
    q.resultVariables = q.form.resultVariables q.root q.values

def Element.Legal : Element → Prop
  | .path _ p _ _ => ∀ iri ∈ p.iris, Iri.hasScheme iri = true
  | .subquery query _ => ∃ q, query = some q ∧ q.IsSubSelect
  | .bind _ target _ => target.node.isVar = true
  | _ => True

def Element.isSubquery : Element → Bool
  | .subquery _ _ => true
  | _ => false

/-- Whether a name of a graph or a service is there and may be one. -/
def GroupKind.Legal : GroupKind → Prop
  | .graph name => ∃ t, name = some t ∧ (t.node.isIri = true ∨ t.node.isVar = true)
  | .service endpoint _ => ∃ t, endpoint = some t ∧ (t.node.isIri = true ∨ t.node.isVar = true)
  | _ => True

/-- A sub-query is all that its group holds; the alternatives of a union are plain groups. -/
def Group.Legal (g : Group) : Prop :=
  g.kind.Legal ∧
    ((∀ e ∈ g.elements, e.isSubquery = false) ∨ g.elements.length = 1 ∧ g.children = [] ∧
      g.data = none) ∧
    (g.kind = .union → ∀ child ∈ g.children, child.kind = .group)

def Form.Legal : Form → Prop
  | .select _ everything items =>
    (everything = true ↔ items = []) ∧ ∀ item ∈ items, IsVariableName item.name
  | .describe everything targets =>
    (everything = true ↔ targets = []) ∧
      ∀ t ∈ targets, t.node.isIri = true ∨ t.node.isVar = true
  | _ => True

/-- A number that a LIMIT or OFFSET clause can hold. -/
def IsCount (count : Int) : Prop := 0 ≤ count ∧ count ≤ Text.maxInt64

def Query.Legal (q : Query) : Prop :=
  q.form.Legal ∧ q.root.kind = .group ∧
    (∀ clause ∈ q.dataset, Iri.hasScheme clause.iri = true) ∧
    (∀ condition ∈ q.groupBy, ∀ name, condition.name = some name → IsVariableName name) ∧
    (∀ count, q.limit = some count → IsCount count) ∧
    ∀ count, q.offset = some count → IsCount count

/-- The check that a tree is one that the grammar writes. -/
def legalChecks : NodeChecks where
  term t := t.node.Legal true
  data d := d.IsWellFormed ∧ d.Legal
  expression e := e.IsWellFormed ∧ e.Legal
  element e := e.IsWellFormed ∧ e.Legal
  group g := g.IsWellFormed ∧ g.Legal
  query q := q.IsWellFormed ∧ q.Legal

theorem Literal.Legal.isWellFormed {signed : Bool} {l : Literal} (h : l.Legal signed) :
    l.IsWellFormed := by
  cases h <;> simp [IsWellFormed, Grammar.booleanLiteral]

theorem legalChecks_implies : legalChecks.Implies wellFormedChecks where
  term t h l same := by
    simp only [legalChecks, same, Node.Legal] at h
    exact h.isWellFormed
  data _ h := h.1
  expression _ h := h.1
  element _ h := h.1
  group _ h := h.1
  query _ h := h.1

/-- A node whose IRIs can stand between angle brackets. -/
def Node.Clean : Node → Prop
  | .iri value => IsCleanIri value
  | .literal l => ∀ datatype, l.datatype = some datatype → IsCleanIri datatype
  | _ => True

def Element.Clean : Element → Prop
  | .path _ p _ _ => ∀ iri ∈ p.iris, IsCleanIri iri
  | _ => True

def Query.Clean (q : Query) : Prop := ∀ clause ∈ q.dataset, IsCleanIri clause.iri

/-- The check that the IRIs of a tree can stand between angle brackets. -/
def cleanChecks : NodeChecks where
  term t := t.node.Clean
  element := Element.Clean
  query := Query.Clean

/-- The check that a tree is one that the grammar writes, of IRIs that can be written. -/
def printableChecks : NodeChecks where
  term t := t.node.Legal true ∧ t.node.Clean
  data d := d.IsWellFormed ∧ d.Legal
  expression e := e.IsWellFormed ∧ e.Legal
  element e := (e.IsWellFormed ∧ e.Legal) ∧ e.Clean
  group g := g.IsWellFormed ∧ g.Legal
  query q := (q.IsWellFormed ∧ q.Legal) ∧ q.Clean

theorem printableChecks_together : legalChecks.Together cleanChecks printableChecks where
  term _ legal clean := ⟨legal, clean⟩
  data _ legal _ := legal
  expression _ legal _ := legal
  element _ legal clean := ⟨legal, clean⟩
  group _ legal _ := legal
  query _ legal clean := ⟨legal, clean⟩

end SparqlMetrics
