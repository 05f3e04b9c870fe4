import SparqlMetrics.Proofs.Metric.Reached

/-!
# The counting passes agree with the traversal

A counting pass adds up what groups and elements have of their own, and calls itself on child groups
and on the roots of sub-queries. Every pass of that form is a sum over the reached groups and their
elements. The passes for triples, filters, resources and modifiers are of that form, so the metrics
are counts over three lists: the groups, the elements and the queries that a query reaches.
-/
namespace SparqlMetrics

/-- A recursion over groups and elements that counts. -/
structure CountingPass where
  /-- The counts of a group, of groups and of elements, with all that is nested in them. -/
  group : Group → Nat
  groups : List Group → Nat
  elements : List Element → Nat
  /-- What an element counts itself. -/
  ofElement : Element → Nat
  /-- What a group counts itself, apart from its elements. -/
  ofGroup : Group → Nat
  group_eq : ∀ g, group g = elements g.elements + ofGroup g + groups g.children
  groups_nil : groups [] = 0
  groups_cons : ∀ g rest, groups (g :: rest) = group g + groups rest
  elements_nil : elements [] = 0
  elements_cons : ∀ e rest,
    elements (e :: rest) = ofElement e + (e.query?.elim 0 fun q => group q.root) + elements rest

namespace CountingPass

theorem groups_eq (p : CountingPass) (gs : List Group) : p.groups gs = (gs.map p.group).sum := by
  induction gs with
  | nil => exact p.groups_nil
  | cons g rest ih => rw [p.groups_cons, ih, List.map_cons, List.sum_cons]

theorem elements_eq (p : CountingPass) (es : List Element) :
    p.elements es = (es.map p.ofElement).sum +
      (((es.filterMap Element.query?).map Query.root).map p.group).sum := by
  induction es with
  | nil => exact p.elements_nil
  | cons e rest ih =>
      rw [p.elements_cons, ih, List.map_cons, List.sum_cons]
      cases held : e.query? with
      | none =>
          rw [List.filterMap_cons_none held, Option.elim_none]
          omega
      | some q =>
          rw [List.filterMap_cons_some held, Option.elim_some, List.map_cons, List.map_cons,
            List.sum_cons]
          omega

theorem group_step (p : CountingPass) (g : Group) :
    p.group g =
      ((g.elements.map p.ofElement).sum + p.ofGroup g) + (g.nested.map p.group).sum := by
  rw [p.group_eq, p.elements_eq, p.groups_eq, Group.nested, List.map_append, List.sum_append,
    Group.queries]
  omega

/-- A counting pass is the sum of what the reached elements and the reached groups count
themselves. -/
theorem group_total (p : CountingPass) (g : Group) :
    p.group g = ((g.reached.flatMap Group.elements).map p.ofElement).sum +
      (g.reached.map p.ofGroup).sum := by
  rw [Group.count_reached p.group_step]
  induction g.reached with
  | nil => rfl
  | cons first rest ih =>
      rw [List.map_cons, List.sum_cons, ih, List.flatMap_cons, List.map_append, List.sum_append,
        List.map_cons, List.sum_cons]
      omega

theorem query_total (p : CountingPass) (q : Query) :
    p.group q.root = (q.reachedElements.map p.ofElement).sum + (q.reached.map p.ofGroup).sum := by
  rw [p.group_total, Query.reachedElements, Query.reached_eq]

end CountingPass

/-! ## The passes -/

def countResourceTerms (terms : List Term) : Nat := terms.countP fun t => t.node.isResource

theorem countResourceTerms_pair (subject object : Term) :
    countResourceTerms [subject, object] = endResources subject object := by
  simp only [countResourceTerms, endResources, tally, List.countP_cons, List.countP_nil]
  omega

theorem countResourceTerms_nil : countResourceTerms [] = 0 := rfl

theorem sum_tally {α : Type} (p : α → Bool) (xs : List α) :
    (xs.map fun x => tally (p x)).sum = xs.countP p := by
  induction xs with
  | nil => rfl
  | cons x rest ih =>
      rw [List.map_cons, List.sum_cons, List.countP_cons, ih, tally]
      omega

theorem sum_zero {α : Type} (xs : List α) : (xs.map fun _ => 0).sum = 0 := by
  induction xs with
  | nil => rfl
  | cons x rest ih => rw [List.map_cons, List.sum_cons, ih]

theorem sum_add {α : Type} (f g : α → Nat) (xs : List α) :
    (xs.map fun x => f x + g x).sum = (xs.map f).sum + (xs.map g).sum := by
  induction xs with
  | nil => rfl
  | cons x rest ih =>
      simp only [List.map_cons, List.sum_cons, ih]
      omega

theorem sum_elim {α β : Type} (f : α → Option β) (weight : β → Nat) (xs : List α) :
    (xs.map fun x => (f x).elim 0 weight).sum = ((xs.filterMap f).map weight).sum := by
  induction xs with
  | nil => rfl
  | cons x rest ih =>
      rw [List.map_cons, List.sum_cons, ih]
      cases held : f x with
      | none => rw [List.filterMap_cons_none held, Option.elim_none, Nat.zero_add]
      | some y => rw [List.filterMap_cons_some held, Option.elim_some, List.map_cons, List.sum_cons]

theorem Query.countTriples_eq (q : Query) : q.countTriples = q.root.countTriples := by
  cases q
  rfl

theorem Query.countFilters_eq (q : Query) : q.countFilters = q.root.countFilters := by
  cases q
  rfl

theorem Query.countResources_eq (predicates : Bool) (q : Query) :
    q.countResources predicates = q.root.countResources predicates := by
  cases q
  rfl

theorem Query.countModifier_eq (m : CountedModifier) (q : Query) :
    q.countModifier m = q.root.countModifier m + tally (q.hasModifier m) := by
  cases q
  rfl

def triplesPass : CountingPass where
  group := Group.countTriples
  groups := Group.countTriplesAll
  elements := Element.countTriples
  ofElement e := tally e.isTriple
  ofGroup _ := 0
  group_eq g := by
    cases g
    rfl
  groups_nil := rfl
  groups_cons _ _ := rfl
  elements_nil := rfl
  elements_cons e rest := by
    cases e with
    | subquery query span =>
        cases query <;> simp [Element.countTriples, tally, Query.countTriples_eq]
    | _ => simp [Element.countTriples, tally, Nat.add_comm]

def filtersPass : CountingPass where
  group := Group.countFilters
  groups := Group.countFiltersAll
  elements := Element.countFilters
  ofElement e := tally e.isFilter
  ofGroup _ := 0
  group_eq g := by
    cases g
    rfl
  groups_nil := rfl
  groups_cons _ _ := rfl
  elements_nil := rfl
  elements_cons e rest := by
    cases e with
    | subquery query span =>
        cases query <;> simp [Element.countFilters, tally, Query.countFilters_eq]
    | _ => simp [Element.countFilters, tally, Nat.add_comm]

/-- The pass that counts resources. In predicate position a resource counts, and a path by its own
rule. -/
def resourcesPass (predicates : Bool) : CountingPass where
  group := Group.countResources predicates
  groups := Group.countResourcesAll predicates
  elements := Element.countResources predicates
  ofElement e := countResourceTerms e.ends +
    if predicates then
      (e.predicate?.elim 0 fun t => tally t.node.isResource) + e.path?.elim 0 Path.countPredicates
    else 0
  ofGroup g := if predicates then g.data.elim 0 fun table => table.rows.length else 0
  group_eq g := by
    obtain ⟨kind, elements, children, data, span⟩ := g
    cases data <;> rfl
  groups_nil := rfl
  groups_cons _ _ := rfl
  elements_nil := rfl
  elements_cons e rest := by
    cases e with
    | subquery query span =>
        cases query <;> simp [Element.countResources, countResourceTerms, Query.countResources_eq]
    | _ => simp [Element.countResources, countResourceTerms_pair, countResourceTerms_nil]

def modifierPass (m : CountedModifier) : CountingPass where
  group := Group.countModifier m
  groups := Group.countModifierAll m
  elements := Element.countModifier m
  ofElement e := e.query?.elim 0 fun q => tally (q.hasModifier m)
  ofGroup _ := 0
  group_eq g := by
    cases g
    rfl
  groups_nil := rfl
  groups_cons _ _ := rfl
  elements_nil := rfl
  elements_cons e rest := by
    cases e with
    | subquery query span =>
        cases query with
        | none => simp [Element.countModifier]
        | some query =>
            simp only [Element.countModifier, Element.query?, Option.elim_some,
              Query.countModifier_eq]
            omega
    | _ => simp [Element.countModifier]

/-! ## The metrics -/

def CountedModifier.Modifies : CountedModifier → Query → Prop
  | .orderBy, q => q.orderBy ≠ []
  | .limit, q => ∃ count ∈ q.limit, 0 ≤ count
  | .having, q => q.having ≠ []
  | .offset, q => ∃ count ∈ q.offset, 0 < count
  | .groupBy, q => q.groupBy ≠ []

namespace Query

theorem hasModifier_iff (m : CountedModifier) (q : Query) :
    q.hasModifier m = true ↔ m.Modifies q := by
  cases m with
  | limit =>
      simp only [hasModifier, CountedModifier.Modifies]
      cases q.limit <;> simp [isLimit]
  | offset =>
      simp only [hasModifier, CountedModifier.Modifies]
      cases q.offset <;> simp [isOffset]
  | _ => simp [hasModifier, CountedModifier.Modifies]

instance (m : CountedModifier) (q : Query) : Decidable (m.Modifies q) :=
  decidable_of_iff _ (hasModifier_iff m q)

theorem countTriples_reached (q : Query) :
    q.root.countTriples = q.reachedElements.countP Element.isTriple :=
  calc q.root.countTriples
    _ = (q.reachedElements.map fun e => tally e.isTriple).sum + (q.reached.map fun _ => 0).sum :=
        triplesPass.query_total q
    _ = q.reachedElements.countP Element.isTriple := by rw [sum_tally, sum_zero, Nat.add_zero]

theorem countFilters_reached (q : Query) :
    q.root.countFilters = q.reachedElements.countP Element.isFilter :=
  calc q.root.countFilters
    _ = (q.reachedElements.map fun e => tally e.isFilter).sum + (q.reached.map fun _ => 0).sum :=
        filtersPass.query_total q
    _ = q.reachedElements.countP Element.isFilter := by rw [sum_tally, sum_zero, Nat.add_zero]

theorem countEnds_reached (q : Query) :
    q.root.countResources false = countResourceTerms (q.reachedElements.flatMap Element.ends) :=
  calc q.root.countResources false
    _ = (q.reachedElements.map fun e => countResourceTerms e.ends).sum +
          (q.reached.map fun _ => 0).sum := (resourcesPass false).query_total q
    _ = countResourceTerms (q.reachedElements.flatMap Element.ends) := by
        rw [sum_zero, countResourceTerms, List.countP_flatMap]
        rfl

/-- What the walk with predicates adds to the ends: resources that are predicates, what paths count
and the rows of tables. -/
theorem countResources_reached (q : Query) :
    q.root.countResources true = q.root.countResources false +
      (countResourceTerms (q.reachedElements.filterMap Element.predicate?) +
        ((q.reachedElements.filterMap Element.path?).map Path.countPredicates).sum +
        ((q.reached.filterMap Group.data).map fun table => table.rows.length).sum) := by
  have ends := (resourcesPass false).query_total q
  have all := (resourcesPass true).query_total q
  simp only [resourcesPass, if_true, Bool.false_eq_true, if_false, sum_add, sum_zero, sum_elim,
    sum_tally] at ends all
  rw [all, ends, countResourceTerms]
  omega

theorem countModifier_reached (m : CountedModifier) (q : Query) :
    q.countModifier m = q.reachedQueries.countP fun s => decide (m.Modifies s) := by
  have total := (modifierPass m).query_total q
  simp only [modifierPass, sum_elim, sum_tally, sum_zero, Nat.add_zero] at total
  have decided : (fun s => decide (m.Modifies s)) = hasModifier m := by
    funext s
    rw [Bool.eq_iff_iff, decide_eq_true_iff, hasModifier_iff]
  rw [countModifier_eq, total, reachedQueries, decided, List.countP_cons, tally]

end Query

/-- Every count that is a walk over a query's pattern is a count over what the one traversal
reaches. -/
theorem QueryUnit.measure_reached (unit : QueryUnit) :
    (∀ g, g ∈ unit.query.reached ↔ unit.query.root.Reaches g) ∧
    unit.measure .triples = unit.query.reachedElements.countP Element.isTriple ∧
    unit.measure .filters = unit.query.reachedElements.countP Element.isFilter ∧
    unit.measure .resourcesSubjectsObjects =
      countResourceTerms (unit.query.reachedElements.flatMap Element.ends) ∧
    unit.measure .resourcesPredicates =
      ((countResourceTerms (unit.query.reachedElements.filterMap Element.predicate?) +
        ((unit.query.reachedElements.filterMap Element.path?).map Path.countPredicates).sum +
        ((unit.query.reached.filterMap Group.data).map fun table => table.rows.length).sum : Nat) : Int) ∧
    0 ≤ unit.measure .resourcesPredicates ∧
    (∀ m, unit.measure (.modifier m) =
      unit.query.reachedQueries.countP fun s => decide (m.Modifies s)) ∧
    unit.measure .modifiers = unit.measure (.modifier .orderBy) + unit.measure (.modifier .limit) +
      unit.measure (.modifier .having) + unit.measure (.modifier .offset) +
      unit.measure (.modifier .groupBy) := by
  have predicates : unit.measure .resourcesPredicates =
      ((countResourceTerms (unit.query.reachedElements.filterMap Element.predicate?) +
        ((unit.query.reachedElements.filterMap Element.path?).map Path.countPredicates).sum +
        ((unit.query.reached.filterMap Group.data).map fun table => table.rows.length).sum : Nat) : Int) := by
    rw [QueryUnit.measure, Query.countResources_reached]
    omega
  refine ⟨fun g => ?_, ?_, ?_, ?_, predicates, ?_, fun m => ?_, rfl⟩
  · rw [Query.reached_eq]
    exact ⟨Group.reaches_of_mem _, Group.Reaches.mem_reached⟩
  · rw [QueryUnit.measure, Query.countTriples_reached]
  · rw [QueryUnit.measure, Query.countFilters_reached]
  · rw [QueryUnit.measure, Query.countEnds_reached]
  · rw [predicates]
    exact Int.natCast_nonneg _
  · rw [QueryUnit.measure, Query.countModifier_reached]

end SparqlMetrics
