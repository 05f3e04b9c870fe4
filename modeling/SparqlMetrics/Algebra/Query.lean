import SparqlMetrics.Algebra.Path
import SparqlMetrics.Namespaces

/-!
# Queries

The tree of a query. A group holds elements (triples, filters, sub-queries, bindings), at most one
table of values and child groups; the alternatives of a union are the children of a union group.
Expressions own the patterns of their EXISTS tests. The types admit more trees than the grammar
writes, such as an operator with a missing operand or a sub-query position without a query; every
pass over a tree gives such trees a meaning.
-/
namespace SparqlMetrics

/-- Whether a selection removes or may remove duplicates. -/
inductive SelectModifier where
  | none | distinct | reduced
  deriving DecidableEq, Repr

/-- How an ordering condition was written: without a direction or with one. -/
inductive Direction where
  | unmarked | ascending | descending
  deriving DecidableEq, Repr

/-- What a call names: a built-in function by its capital name, or a function IRI. -/
inductive Callee where
  | builtin (name : Text)
  | iri (function : Term)
  deriving DecidableEq, Repr

/-- The callee with a function IRI if there is one, else with a name. -/
def Callee.ofFields (name : Text) : Option Term → Callee
  | some function => .iri function
  | none => .builtin name

inductive GroupKind where
  | group
  | optional
  | union
  | minus
  | graph (name : Option Term)
  | service (endpoint : Option Term) (silent : Bool)
  deriving DecidableEq, Repr

structure DatasetClause where
  iri : Text
  named : Bool := false
  deriving DecidableEq, Repr

mutual

/-- An expression. Operators hold their operands as a list; in a list membership the first one is
the left side. -/
inductive Expression where
  | term (t : Term) (span : Span)
  | unary (op : Text) (args : List Expression) (span : Span)
  | binary (op : Text) (args : List Expression) (span : Span)
  | call (callee : Callee) (distinct : Bool) (args : List Expression) (span : Span)
  | aggregate (name : Text) (distinct star : Bool) (args : List Expression)
      (separator : Option Text) (span : Span)
  | member (negated : Bool) (args : List Expression) (span : Span)
  | exists (negated : Bool) (pattern : Option Group) (span : Span)

/-- A member of a group in writing order. -/
inductive Element where
  | triple (t : Triple)
  | path (subject : Term) (path : Path) (object : Term) (span : Span)
  | filter (condition : Expression) (span : Span)
  | subquery (query : Option Query) (span : Span)
  | bind (value : Expression) (target : Term) (span : Span)

structure Group where
  kind : GroupKind
  elements : List Element
  children : List Group
  data : Option InlineData
  span : Span

/-- A projected variable, or an expression under the name of one. -/
structure Projection where
  name : Text
  value : Option Expression
  span : Span

/-- The form of a query and what belongs to it alone. -/
inductive Form where
  | select (modifier : SelectModifier) (everything : Bool) (items : List Projection)
  | ask
  | construct (template : List Triple)
  | describe (everything : Bool) (targets : List Term)

structure GroupCondition where
  value : Expression
  name : Option Text

structure OrderCondition where
  value : Expression
  direction : Direction

/-- A query without its prologue. The result variables are kept in order of first occurrence. -/
structure Query where
  form : Form
  resultVariables : List Text
  dataset : List DatasetClause
  root : Group
  groupBy : List GroupCondition
  having : List Expression
  orderBy : List OrderCondition
  limit : Option Int
  offset : Option Int
  values : Option InlineData
  span : Span

end

structure QueryUnit where
  namespaces : Namespaces
  query : Query

def Expression.span : Expression → Span
  | .term _ span => span
  | .unary _ _ span => span
  | .binary _ _ span => span
  | .call _ _ _ span => span
  | .aggregate _ _ _ _ _ span => span
  | .member _ _ span => span
  | .exists _ _ span => span

def Group.empty (kind : GroupKind) : Group := ⟨kind, [], [], none, {}⟩

/-- Whether a group holds nothing that is written. -/
def Group.isEmpty (g : Group) : Bool := g.elements.isEmpty && g.children.isEmpty && g.data.isNone

def Form.isDescribe : Form → Bool
  | .describe _ _ => true
  | _ => false

/-- The part of a type name that a selection's modifier adds. -/
def SelectModifier.suffix : SelectModifier → Text
  | .none => []
  | .distinct => utf8 "Distinct"
  | .reduced => utf8 "Reduced"

def Query.typeName (q : Query) : Text :=
  match q.form with
  | .select modifier everything _ =>
    utf8 (if everything then "SelectAll" else "Select") ++ modifier.suffix
  | .ask => utf8 "Ask"
  | .construct _ => utf8 "Construct"
  | .describe everything _ => utf8 (if everything then "DescribeAll" else "Describe")

end SparqlMetrics
