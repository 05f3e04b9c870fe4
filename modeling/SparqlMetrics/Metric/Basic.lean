import SparqlMetrics.Metric.Count
import SparqlMetrics.Metric.Normal

/-!
# Metrics

The thirteen metrics of a query in their fixed order, their names and their values. The resources in
predicate position are all resources less those in subject and object position; the modifiers are
the sum of the five kinds.
-/
namespace SparqlMetrics

inductive Metric where
  | triples
  | filters
  | variables
  | resources
  | resourcesSubjectsObjects
  | resourcesPredicates
  | modifier (m : CountedModifier)
  | modifiers
  | normalizedLength
  deriving DecidableEq, Repr

namespace Metric

def all : List Metric := [
  .triples, .filters, .variables, .resources, .resourcesSubjectsObjects, .resourcesPredicates,
  .modifier .orderBy, .modifier .limit, .modifier .having, .modifier .offset,
  .modifier .groupBy, .modifiers, .normalizedLength]

def name : Metric → String
  | .triples => "numberOfTriples"
  | .filters => "numberOfFilters"
  | .variables => "numberOfVariables"
  | .resources => "numberOfResources"
  | .resourcesSubjectsObjects => "numberOfResourcesSubjectsObjects"
  | .resourcesPredicates => "numberOfResourcesPredicates"
  | .modifier .orderBy => "numberOfModifierOrderBy"
  | .modifier .limit => "numberOfModifierLimit"
  | .modifier .having => "numberOfModifierHaving"
  | .modifier .offset => "numberOfModifierOffset"
  | .modifier .groupBy => "numberOfModifierGroupBy"
  | .modifiers => "numberOfModifiers"
  | .normalizedLength => "normalizedQueryLength"

/-- The IRI of a name in the benchmark vocabulary. -/
def iriOf (name : Text) : Text := utf8 "urn:qa:benchmark#" ++ name

def iri (m : Metric) : Text := iriOf (utf8 m.name)

end Metric

structure Metrics where
  value : Metric → Int

namespace Metrics

/-- The names and values in their fixed order. -/
def entries (m : Metrics) : List (Metric × Int) := Metric.all.map fun k => (k, m.value k)

/-- The metrics with values in their fixed order; missing values are zero. -/
def ofValues (values : List Int) : Metrics where
  value k := values.getD (Metric.all.idxOf k) 0

end Metrics

def QueryUnit.measure (unit : QueryUnit) : Metric → Int
  | .triples => unit.query.root.countTriples
  | .filters => unit.query.root.countFilters
  | .variables => unit.query.countVariables
  | .resources => unit.query.root.countResources true
  | .resourcesSubjectsObjects => unit.query.root.countResources false
  | .resourcesPredicates =>
    (unit.query.root.countResources true : Int) - unit.query.root.countResources false
  | .modifier m => unit.query.countModifier m
  | .modifiers =>
    unit.query.countModifier .orderBy + unit.query.countModifier .limit +
      unit.query.countModifier .having + unit.query.countModifier .offset +
      unit.query.countModifier .groupBy
  | .normalizedLength => unit.normalLength

def QueryUnit.metrics (unit : QueryUnit) : Metrics := ⟨unit.measure⟩

end SparqlMetrics
