import Mathlib.Algebra.GroupWithZero.Nat
import SparqlMetrics.Metric.Basic

/-!
# One traversal behind all counting passes

The groups that a group reaches are listed once: the group itself, its child groups and the root
groups of the sub-queries among its elements, and what those reach. Conditions, bindings and the
patterns of EXISTS tests are not entered, nor is a sub-query position without a query. Each counting
pass is a recursion of its own over the same tree; what they share is stated once, as the equation
of a sum over this list, and each pass is an instance of it.
-/
namespace SparqlMetrics

namespace Element

/-- The query that a sub-query position holds. -/
@[simp]
def query? : Element → Option Query
  | .subquery query _ => query
  | _ => none

/-- The ends of a triple or of a path. -/
@[simp]
def ends : Element → List Term
  | .triple t => [t.subject, t.object]
  | .path subject _ object _ => [subject, object]
  | _ => []

/-- The predicate of a basic triple. -/
@[simp]
def predicate? : Element → Option Term
  | .triple t => some t.predicate
  | _ => none

/-- The path of a path triple. -/
@[simp]
def path? : Element → Option Path
  | .path _ steps _ _ => some steps
  | _ => none

/-- Whether an element is a triple, basic or with a path. -/
@[simp]
def isTriple : Element → Bool
  | .triple _ => true
  | .path _ _ _ _ => true
  | _ => false

/-- Whether an element is a filter. -/
@[simp]
def isFilter : Element → Bool
  | .filter _ _ => true
  | _ => false

end Element

def Group.queries (g : Group) : List Query := g.elements.filterMap Element.query?

def Group.nested (g : Group) : List Group := g.queries.map Query.root ++ g.children

/-- A group reaches itself, and what its children and the roots of its sub-queries reach. -/
inductive Group.Reaches : Group → Group → Prop
  | self (g : Group) : Group.Reaches g g
  | child {g c h : Group} (inside : c ∈ g.children) (rest : Group.Reaches c h) : Group.Reaches g h
  | subquery {g h : Group} {q : Query} {span : Span}
      (inside : Element.subquery (some q) span ∈ g.elements) (rest : Group.Reaches q.root h) :
      Group.Reaches g h

mutual

/-- The groups that a group reaches, each once for every place where it stands. -/
def Group.reached : Group → List Group
  | ⟨kind, elements, children, data, span⟩ =>
    ⟨kind, elements, children, data, span⟩ ::
      (Element.reached elements ++ Group.reachedAll children)

def Group.reachedAll : List Group → List Group
  | [] => []
  | g :: rest => g.reached ++ Group.reachedAll rest

/-- The groups that the sub-queries among elements reach. -/
def Element.reached : List Element → List Group
  | [] => []
  | .triple _ :: rest => Element.reached rest
  | .path _ _ _ _ :: rest => Element.reached rest
  | .filter _ _ :: rest => Element.reached rest
  | .subquery none _ :: rest => Element.reached rest
  | .subquery (some query) _ :: rest => query.reached ++ Element.reached rest
  | .bind _ _ _ :: rest => Element.reached rest

/-- The groups that a query's pattern reaches. -/
def Query.reached : Query → List Group
  | ⟨_, _, _, root, _, _, _, _, _, _, _⟩ => root.reached

end

def Query.reachedElements (q : Query) : List Element := q.reached.flatMap Group.elements

/-- A query and all sub-queries that it reaches. -/
def Query.reachedQueries (q : Query) : List Query := q :: q.reachedElements.filterMap Element.query?

theorem Query.reached_eq (q : Query) : q.reached = q.root.reached := by
  cases q
  rfl

theorem Group.reachedAll_eq (gs : List Group) :
    Group.reachedAll gs = gs.flatMap Group.reached := by
  induction gs with
  | nil => rfl
  | cons g rest ih => rw [Group.reachedAll, List.flatMap_cons, ih]

theorem Element.reached_eq (es : List Element) :
    Element.reached es = (es.filterMap Element.query?).flatMap Query.reached := by
  induction es with
  | nil => rfl
  | cons e rest ih =>
      cases e with
      | subquery query span =>
          cases query with
          | none => exact ih
          | some query =>
              rw [Element.reached, ih]
              rfl
      | _ => exact ih

/-- A group comes first; the rest is what the groups directly below it reach. -/
theorem Group.reached_eq (g : Group) : g.reached = g :: g.nested.flatMap Group.reached := by
  have roots : ∀ qs : List Query,
      qs.flatMap Query.reached = (qs.map Query.root).flatMap Group.reached := by
    intro qs
    rw [List.flatMap_map]
    congr 1
    funext q
    exact Query.reached_eq q
  obtain ⟨kind, elements, children, data, span⟩ := g
  rw [Group.reached, Element.reached_eq, Group.reachedAll_eq, roots, Group.nested,
    List.flatMap_append]
  rfl

/-! ## A count is a sum over the traversal -/

section sums

variable {count own : Group → Nat}

mutual

/-- A count that adds to what a group has of its own the counts of the groups directly below it is
the sum of what the reached groups have of their own. -/
theorem Group.count_reached (step : ∀ g, count g = own g + (g.nested.map count).sum) :
    ∀ g : Group, count g = (g.reached.map own).sum
  | ⟨kind, elements, children, data, span⟩ => by
    have inside := Element.count_reached step elements
    have under := Group.count_reachedAll step children
    rw [step, Group.nested, List.map_append, List.sum_append, Group.reached, List.map_cons,
      List.sum_cons, List.map_append, List.sum_append, ← inside, ← under]
    rfl

theorem Group.count_reachedAll (step : ∀ g, count g = own g + (g.nested.map count).sum) :
    ∀ gs : List Group, (gs.map count).sum = ((Group.reachedAll gs).map own).sum
  | [] => rfl
  | g :: rest => by
    rw [List.map_cons, List.sum_cons, Group.reachedAll, List.map_append, List.sum_append,
      Group.count_reached step g, Group.count_reachedAll step rest]

theorem Element.count_reached (step : ∀ g, count g = own g + (g.nested.map count).sum) :
    ∀ es : List Element, (((es.filterMap Element.query?).map Query.root).map count).sum =
      ((Element.reached es).map own).sum
  | [] => rfl
  | .triple _ :: rest => Element.count_reached step rest
  | .path _ _ _ _ :: rest => Element.count_reached step rest
  | .filter _ _ :: rest => Element.count_reached step rest
  | .subquery none _ :: rest => Element.count_reached step rest
  | .subquery (some query) _ :: rest => by
    have first := Query.count_reached step query
    have tail := Element.count_reached step rest
    rw [Element.reached, List.map_append, List.sum_append, ← first, ← tail]
    rfl
  | .bind _ _ _ :: rest => Element.count_reached step rest

theorem Query.count_reached (step : ∀ g, count g = own g + (g.nested.map count).sum) :
    ∀ q : Query, count q.root = (q.reached.map own).sum
  | ⟨_, _, _, root, _, _, _, _, _, _, _⟩ => Group.count_reached step root

end

end sums

/-! ## Reachability -/

theorem Group.mem_nested {g c : Group} :
    c ∈ g.nested ↔ c ∈ g.children ∨
      ∃ q span, Element.subquery (some q) span ∈ g.elements ∧ q.root = c := by
  have subqueries : ∀ q, q ∈ g.queries ↔ ∃ span, Element.subquery (some q) span ∈ g.elements := by
    intro q
    rw [Group.queries, List.mem_filterMap]
    constructor
    · rintro ⟨e, inside, held⟩
      cases e with
      | subquery query span =>
          rw [Element.query?] at held
          subst held
          exact ⟨span, inside⟩
      | _ => cases held
    · rintro ⟨span, inside⟩
      exact ⟨_, inside, rfl⟩
  rw [Group.nested, List.mem_append, List.mem_map]
  constructor
  · rintro (⟨q, inside, rfl⟩ | inside)
    · obtain ⟨span, inside⟩ := (subqueries q).mp inside
      exact .inr ⟨q, span, inside, rfl⟩
    · exact .inl inside
  · rintro (inside | ⟨q, span, inside, rfl⟩)
    · exact .inr inside
    · exact .inl ⟨q, (subqueries q).mpr ⟨span, inside⟩, rfl⟩

theorem Group.self_mem_reached (g : Group) : g ∈ g.reached := by
  rw [Group.reached_eq]
  exact List.mem_cons_self

theorem Group.mem_reached_of_nested {g c h : Group} (inside : c ∈ g.nested) (there : h ∈ c.reached) :
    h ∈ g.reached := by
  rw [Group.reached_eq]
  exact List.mem_cons_of_mem _ (List.mem_flatMap.mpr ⟨c, inside, there⟩)

theorem Group.Reaches.mem_reached {g h : Group} (reaches : g.Reaches h) : h ∈ g.reached := by
  induction reaches with
  | self g => exact Group.self_mem_reached g
  | child inside _ ih => exact Group.mem_reached_of_nested (Group.mem_nested.mpr (.inl inside)) ih
  | subquery inside _ ih =>
      exact Group.mem_reached_of_nested (Group.mem_nested.mpr (.inr ⟨_, _, inside, rfl⟩)) ih

mutual

theorem Group.reaches_of_mem : ∀ (g : Group) {h : Group}, h ∈ g.reached → g.Reaches h
  | ⟨kind, elements, children, data, span⟩, h, there => by
    rw [Group.reached, List.mem_cons, List.mem_append] at there
    obtain rfl | there | there := there
    · exact .self _
    · obtain ⟨q, span, inside, rest⟩ := Element.reaches_of_mem elements there
      exact .subquery inside rest
    · obtain ⟨c, inside, rest⟩ := Group.reaches_of_mem_all children there
      exact .child inside rest

theorem Group.reaches_of_mem_all : ∀ (gs : List Group) {h : Group}, h ∈ Group.reachedAll gs →
    ∃ c ∈ gs, c.Reaches h
  | [], _, there => absurd there List.not_mem_nil
  | g :: rest, h, there => by
    rw [Group.reachedAll, List.mem_append] at there
    obtain there | there := there
    · exact ⟨g, List.mem_cons_self, Group.reaches_of_mem g there⟩
    · obtain ⟨c, inside, reaches⟩ := Group.reaches_of_mem_all rest there
      exact ⟨c, List.mem_cons_of_mem _ inside, reaches⟩

theorem Element.reaches_of_mem : ∀ (es : List Element) {h : Group}, h ∈ Element.reached es →
    ∃ q span, Element.subquery (some q) span ∈ es ∧ q.root.Reaches h
  | [], _, there => absurd there List.not_mem_nil
  | .triple _ :: rest, _, there => Element.reaches_of_mem_tail rest there
  | .path _ _ _ _ :: rest, _, there => Element.reaches_of_mem_tail rest there
  | .filter _ _ :: rest, _, there => Element.reaches_of_mem_tail rest there
  | .subquery none _ :: rest, _, there => Element.reaches_of_mem_tail rest there
  | .subquery (some query) span :: rest, h, there => by
    rw [Element.reached, List.mem_append] at there
    obtain there | there := there
    · exact ⟨query, span, List.mem_cons_self, Query.reaches_of_mem query there⟩
    · exact Element.reaches_of_mem_tail rest there
  | .bind _ _ _ :: rest, _, there => Element.reaches_of_mem_tail rest there

theorem Element.reaches_of_mem_tail : ∀ (es : List Element) {e : Element} {h : Group},
    h ∈ Element.reached es → ∃ q span, Element.subquery (some q) span ∈ e :: es ∧ q.root.Reaches h
  | es, _, _, there => by
    obtain ⟨q, span, inside, reaches⟩ := Element.reaches_of_mem es there
    exact ⟨q, span, List.mem_cons_of_mem _ inside, reaches⟩

theorem Query.reaches_of_mem : ∀ (q : Query) {h : Group}, h ∈ q.reached → q.root.Reaches h
  | ⟨_, _, _, root, _, _, _, _, _, _, _⟩, _, there => Group.reaches_of_mem root there

end

end SparqlMetrics
