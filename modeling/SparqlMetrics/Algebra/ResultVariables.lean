import SparqlMetrics.Algebra.Query

/-!
# Result variables

The variables that a pattern binds, in order of first occurrence: those of triple positions, targets
of bindings, columns of inline tables, result variables of sub-queries and names of graphs.
Variables of filters, of a service endpoint and of a MINUS side are not bound.
-/
namespace SparqlMetrics

/-- The variable that a term is, as a list. -/
def Term.variables (t : Term) : List Text := t.node.varName?.toList

def Element.boundVariables : Element → List Text
  | .triple t => t.subject.variables ++ t.predicate.variables ++ t.object.variables
  | .path subject _ object _ => subject.variables ++ object.variables
  | .filter _ _ => []
  | .subquery none _ => []
  | .subquery (some query) _ => query.resultVariables
  | .bind _ target _ => target.variables

/-- The variable that names a graph. -/
def GroupKind.boundVariables : GroupKind → List Text
  | .graph (some name) => name.variables
  | _ => []

def columnsOf : Option InlineData → List Text
  | none => []
  | some data => data.columns

mutual

/-- The variables that a group binds, with repetitions. -/
def Group.boundVariables : Group → List Text
  | ⟨kind, elements, children, data, _⟩ =>
    elements.flatMap Element.boundVariables ++ columnsOf data ++ kind.boundVariables ++
      Group.boundByChildren children

/-- The variables that the children of a group bind; a MINUS side binds none. -/
def Group.boundByChildren : List Group → List Text
  | [] => []
  | ⟨.minus, _, _, _, _⟩ :: rest => Group.boundByChildren rest
  | child :: rest => child.boundVariables ++ Group.boundByChildren rest

end

/-- The result variables of a query of a given form, pattern and trailing table. -/
def Form.resultVariables (form : Form) (root : Group) (values : Option InlineData) : List Text :=
  match form with
  | .select _ false items => Text.distinct (items.map (·.name))
  | .describe false targets => Text.distinct (targets.flatMap Term.variables)
  | _ => Text.distinct (root.boundVariables ++ columnsOf values)

end SparqlMetrics
