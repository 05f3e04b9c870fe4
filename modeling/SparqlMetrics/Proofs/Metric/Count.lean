import SparqlMetrics.Proofs.Metric.Passes

/-!
# Metrics are not negative

Every count is a natural number but one: the resources in predicate position are what is left of all
resources without those in subject and object position. The walk that also counts predicates and the
rows of tables counts everything that the other walk does, so the difference is one of natural
numbers.
-/
namespace SparqlMetrics

theorem Query.countResources_le (q : Query) :
    q.root.countResources false ≤ q.root.countResources true := by
  rw [Query.countResources_reached]
  exact Nat.le_add_right _ _

theorem QueryUnit.measure_nonneg (unit : QueryUnit) (m : Metric) : 0 ≤ unit.measure m := by
  have resources := Query.countResources_le unit.query
  cases m with
  | resourcesPredicates =>
      show 0 ≤ (unit.query.root.countResources true : Int) - unit.query.root.countResources false
      omega
  | modifiers =>
      simp only [QueryUnit.measure]
      omega
  | _ => exact Int.natCast_nonneg _

end SparqlMetrics
