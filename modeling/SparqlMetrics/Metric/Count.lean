import SparqlMetrics.Algebra.ResultVariables

/-!
# Counting passes

Each pass walks over the groups and sub-queries of a pattern and adds up what it counts;
expressions, and so the patterns of EXISTS tests, are not entered. A path counts its steps along
IRIs by a fixed rule: the right part of a join counts only when it is such a step, the left part
likewise, and only a join on the left is entered.
-/
namespace SparqlMetrics

/-- One when a condition holds, else zero. -/
def tally (condition : Bool) : Nat := if condition then 1 else 0

namespace Path

/-- The steps along IRIs that a join counts, its right part first. -/
def countJoin : Path → Nat
  | .join _ left right =>
    tally right.isIriStep + (if left.isIriStep then 1 else left.countJoin)
  | _ => 0

/-- The steps along IRIs that a path counts. -/
def countPredicates : Path → Nat
  | .step predicate => tally predicate.node.isIri
  | .inverse inner => tally inner.isIriStep
  | .repeated _ inner => tally inner.isIriStep
  | .negated inner => tally inner.isIriStep
  | .join how left right => (Path.join how left right).countJoin

end Path

/-- The resources among a subject and an object. -/
def endResources (subject object : Term) : Nat :=
  tally subject.node.isResource + tally object.node.isResource

mutual

/-- The triples of a pattern. -/
def Group.countTriples : Group → Nat
  | ⟨_, elements, children, _, _⟩ => Element.countTriples elements + Group.countTriplesAll children

def Group.countTriplesAll : List Group → Nat
  | [] => 0
  | g :: rest => g.countTriples + Group.countTriplesAll rest

def Element.countTriples : List Element → Nat
  | [] => 0
  | .triple _ :: rest => Element.countTriples rest + 1
  | .path _ _ _ _ :: rest => Element.countTriples rest + 1
  | .filter _ _ :: rest => Element.countTriples rest
  | .subquery none _ :: rest => Element.countTriples rest
  | .subquery (some query) _ :: rest => query.countTriples + Element.countTriples rest
  | .bind _ _ _ :: rest => Element.countTriples rest

def Query.countTriples : Query → Nat
  | ⟨_, _, _, root, _, _, _, _, _, _, _⟩ => root.countTriples

end

mutual

/-- The filters of a pattern. -/
def Group.countFilters : Group → Nat
  | ⟨_, elements, children, _, _⟩ => Element.countFilters elements + Group.countFiltersAll children

def Group.countFiltersAll : List Group → Nat
  | [] => 0
  | g :: rest => g.countFilters + Group.countFiltersAll rest

def Element.countFilters : List Element → Nat
  | [] => 0
  | .triple _ :: rest => Element.countFilters rest
  | .path _ _ _ _ :: rest => Element.countFilters rest
  | .filter _ _ :: rest => Element.countFilters rest + 1
  | .subquery none _ :: rest => Element.countFilters rest
  | .subquery (some query) _ :: rest => query.countFilters + Element.countFilters rest
  | .bind _ _ _ :: rest => Element.countFilters rest

def Query.countFilters : Query → Nat
  | ⟨_, _, _, root, _, _, _, _, _, _, _⟩ => root.countFilters

end

def rowCount : Option InlineData → Nat
  | none => 0
  | some data => data.rows.length

mutual

/-- The resources of a pattern. Predicates and rows of tables count only when they are asked for. -/
def Group.countResources (predicates : Bool) : Group → Nat
  | ⟨_, elements, children, data, _⟩ =>
    Element.countResources predicates elements + (if predicates then rowCount data else 0) +
      Group.countResourcesAll predicates children

def Group.countResourcesAll (predicates : Bool) : List Group → Nat
  | [] => 0
  | g :: rest => g.countResources predicates + Group.countResourcesAll predicates rest

def Element.countResources (predicates : Bool) : List Element → Nat
  | [] => 0
  | .triple t :: rest =>
    endResources t.subject t.object +
      (if predicates then tally t.predicate.node.isResource else 0) +
      Element.countResources predicates rest
  | .path subject path object _ :: rest =>
    endResources subject object + (if predicates then path.countPredicates else 0) +
      Element.countResources predicates rest
  | .filter _ _ :: rest => Element.countResources predicates rest
  | .subquery none _ :: rest => Element.countResources predicates rest
  | .subquery (some query) _ :: rest =>
    query.countResources predicates + Element.countResources predicates rest
  | .bind _ _ _ :: rest => Element.countResources predicates rest

def Query.countResources (predicates : Bool) : Query → Nat
  | ⟨_, _, _, root, _, _, _, _, _, _, _⟩ => root.countResources predicates

end

inductive CountedModifier where
  | orderBy | limit | having | offset | groupBy
  deriving DecidableEq, Repr

/-- Whether a limit is one: it is not negative. -/
def isLimit : Option Int → Bool
  | none => false
  | some count => 0 ≤ count

/-- Whether an offset skips anything. -/
def isOffset : Option Int → Bool
  | none => false
  | some count => 0 < count

/-- Whether a query has a modifier itself. -/
def Query.hasModifier (m : CountedModifier) (q : Query) : Bool :=
  match m with
  | .orderBy => !q.orderBy.isEmpty
  | .limit => isLimit q.limit
  | .having => !q.having.isEmpty
  | .offset => isOffset q.offset
  | .groupBy => !q.groupBy.isEmpty

mutual

/-- How many sub-queries of a pattern have a modifier, at any depth. -/
def Group.countModifier (m : CountedModifier) : Group → Nat
  | ⟨_, elements, children, _, _⟩ =>
    Element.countModifier m elements + Group.countModifierAll m children

def Group.countModifierAll (m : CountedModifier) : List Group → Nat
  | [] => 0
  | g :: rest => g.countModifier m + Group.countModifierAll m rest

def Element.countModifier (m : CountedModifier) : List Element → Nat
  | [] => 0
  | .triple _ :: rest => Element.countModifier m rest
  | .path _ _ _ _ :: rest => Element.countModifier m rest
  | .filter _ _ :: rest => Element.countModifier m rest
  | .subquery none _ :: rest => Element.countModifier m rest
  | .subquery (some query) _ :: rest => query.countModifier m + Element.countModifier m rest
  | .bind _ _ _ :: rest => Element.countModifier m rest

/-- How many queries have a modifier: a query itself and its sub-queries. -/
def Query.countModifier (m : CountedModifier) : Query → Nat
  | ⟨form, names, dataset, root, groupBy, having, orderBy, limit, offset, values, span⟩ =>
    root.countModifier m + tally (Query.hasModifier m
      ⟨form, names, dataset, root, groupBy, having, orderBy, limit, offset, values, span⟩)

end

def Query.countVariables (q : Query) : Nat := (Text.distinct q.resultVariables).length

end SparqlMetrics
