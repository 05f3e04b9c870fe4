import SparqlMetrics.Proofs.Tree.Everywhere

/-!
# Checks of subtrees

What passes everywhere passes everywhere in each of its parts, so a check at a node may ask for what
the tree below the node fulfils. Main statement: `Query.everywhere_subtrees`.
-/
namespace SparqlMetrics

/-- The check that the whole tree below a node passes. -/
def NodeChecks.subtrees (P : NodeChecks) : NodeChecks where
  term := P.term
  data d := d.Everywhere P
  expression e := e.Everywhere P
  element e := e.Everywhere P
  group g := g.Everywhere P
  query q := q.Everywhere P

variable {P : NodeChecks}

theorem tableEverywhere_subtrees :
    ∀ d : Option InlineData, tableEverywhere P d → tableEverywhere P.subtrees d
  | none, _ => trivial
  | some _, h => ⟨h, h.2⟩

theorem Callee.Everywhere.subtrees {c : Callee} (h : c.Everywhere P) : c.Everywhere P.subtrees := by
  cases c with
  | builtin => trivial
  | iri function => exact h

theorem GroupKind.Everywhere.subtrees {k : GroupKind} (h : k.Everywhere P) :
    k.Everywhere P.subtrees := by
  rcases k with _ | _ | _ | _ | name | ⟨endpoint, silent⟩ <;> exact h

mutual

theorem Expression.everywhere_subtrees :
    ∀ e : Expression, e.Everywhere P → e.Everywhere P.subtrees
  | .term _ _, h => ⟨h, h.2⟩
  | .unary _ args _, h => ⟨h, Expression.everywhereAll_subtrees args h.2⟩
  | .binary _ args _, h => ⟨h, Expression.everywhereAll_subtrees args h.2⟩
  | .call _ _ args _, h => ⟨h, h.2.1.subtrees, Expression.everywhereAll_subtrees args h.2.2⟩
  | .aggregate _ _ _ args _ _, h => ⟨h, Expression.everywhereAll_subtrees args h.2⟩
  | .member _ args _, h => ⟨h, Expression.everywhereAll_subtrees args h.2⟩
  | .exists _ none _, h => h
  | .exists _ (some pattern) _, h => ⟨h, Group.everywhere_subtrees pattern h.2⟩

theorem Expression.everywhereAll_subtrees :
    ∀ es : List Expression, Expression.EverywhereAll P es → Expression.EverywhereAll P.subtrees es
  | [], _ => trivial
  | e :: rest, h => ⟨Expression.everywhere_subtrees e h.1, Expression.everywhereAll_subtrees rest h.2⟩

theorem Element.everywhere_subtrees : ∀ e : Element, e.Everywhere P → e.Everywhere P.subtrees
  | .triple _, h => ⟨h, h.2⟩
  | .path _ _ _ _, h => ⟨h, h.2⟩
  | .filter condition _, h => ⟨h, Expression.everywhere_subtrees condition h.2⟩
  | .subquery none _, h => h
  | .subquery (some query) _, h => ⟨h, Query.everywhere_subtrees query h.2⟩
  | .bind value _ _, h => ⟨h, Expression.everywhere_subtrees value h.2.1, h.2.2⟩

theorem Element.everywhereAll_subtrees :
    ∀ es : List Element, Element.EverywhereAll P es → Element.EverywhereAll P.subtrees es
  | [], _ => trivial
  | e :: rest, h => ⟨Element.everywhere_subtrees e h.1, Element.everywhereAll_subtrees rest h.2⟩

theorem Group.everywhere_subtrees : ∀ g : Group, g.Everywhere P → g.Everywhere P.subtrees
  | ⟨_, elements, children, data, _⟩, h =>
    ⟨h, h.2.1.subtrees, Element.everywhereAll_subtrees elements h.2.2.1,
      Group.everywhereAll_subtrees children h.2.2.2.1, tableEverywhere_subtrees data h.2.2.2.2⟩

theorem Group.everywhereAll_subtrees :
    ∀ gs : List Group, Group.EverywhereAll P gs → Group.EverywhereAll P.subtrees gs
  | [], _ => trivial
  | g :: rest, h => ⟨Group.everywhere_subtrees g h.1, Group.everywhereAll_subtrees rest h.2⟩

theorem Projection.everywhereAll_subtrees :
    ∀ ps : List Projection, Projection.EverywhereAll P ps → Projection.EverywhereAll P.subtrees ps
  | [], _ => trivial
  | ⟨_, none, _⟩ :: rest, h => Projection.everywhereAll_subtrees rest h
  | ⟨_, some value, _⟩ :: rest, h =>
    ⟨Expression.everywhere_subtrees value h.1, Projection.everywhereAll_subtrees rest h.2⟩

theorem Form.everywhere_subtrees : ∀ f : Form, f.Everywhere P → f.Everywhere P.subtrees
  | .select _ _ items, h => Projection.everywhereAll_subtrees items h
  | .ask, _ => trivial
  | .construct _, h => h
  | .describe _ _, h => h

theorem GroupCondition.everywhereAll_subtrees :
    ∀ cs : List GroupCondition, GroupCondition.EverywhereAll P cs →
      GroupCondition.EverywhereAll P.subtrees cs
  | [], _ => trivial
  | ⟨value, _⟩ :: rest, h =>
    ⟨Expression.everywhere_subtrees value h.1, GroupCondition.everywhereAll_subtrees rest h.2⟩

theorem OrderCondition.everywhereAll_subtrees :
    ∀ cs : List OrderCondition, OrderCondition.EverywhereAll P cs →
      OrderCondition.EverywhereAll P.subtrees cs
  | [], _ => trivial
  | ⟨value, _⟩ :: rest, h =>
    ⟨Expression.everywhere_subtrees value h.1, OrderCondition.everywhereAll_subtrees rest h.2⟩

/-- In a tree that passes a check, the tree below every node does. -/
theorem Query.everywhere_subtrees : ∀ q : Query, q.Everywhere P → q.Everywhere P.subtrees
  | ⟨form, _, _, root, groupBy, having, orderBy, _, _, values, _⟩, h =>
    ⟨h, Form.everywhere_subtrees form h.2.1, Group.everywhere_subtrees root h.2.2.1,
      GroupCondition.everywhereAll_subtrees groupBy h.2.2.2.1,
      Expression.everywhereAll_subtrees having h.2.2.2.2.1,
      OrderCondition.everywhereAll_subtrees orderBy h.2.2.2.2.2.1,
      tableEverywhere_subtrees values h.2.2.2.2.2.2⟩

end

end SparqlMetrics
