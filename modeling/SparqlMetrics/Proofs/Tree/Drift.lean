import SparqlMetrics.Proofs.Tree.Everywhere
import SparqlMetrics.Proofs.Tree.Rewriting
import SparqlMetrics.Written.Term

/-!
# Drift

A number is written with the sign it was read with. Behind a predicate that ends with a path element,
a plus sign is not the sign of the object any more: it repeats that element. `Element.drift` is the
element that is read in place of a written one, and `reread` replaces the elements of a whole tree so
and takes away the spans. Where no object can give a sign away, that is all it takes away
(`Query.rewrite_of_kept`).
-/
namespace SparqlMetrics

/-- A literal written with a plus sign, without that sign. -/
def Literal.unsigned? (l : Literal) : Option Literal :=
  if l.short && l.value.head? == some Byte.plus then some { l with value := l.value.tail } else none

/-- A node written with a plus sign, without that sign. -/
def Node.unsigned? : Node → Option Node
  | .literal l => l.unsigned?.map .literal
  | _ => none

namespace Path

/-- A path with its last element repeated, unless that one has a repetition mark. -/
def repeatLast? : Path → Option Path
  | .step predicate => some (.repeated .oneOrMore (.step predicate))
  | .negated inner => some (.repeated .oneOrMore (.negated inner))
  | .repeated _ _ => none
  | .inverse (.repeated _ _) => none
  | .inverse inner => some (.inverse (.repeated .oneOrMore inner))
  | .join how left right =>
    if right.isJoin then some (.join how left (.repeated .oneOrMore right))
    else right.repeatLast?.map (.join how left)

/-- The path that is read in front of a plus sign, or in front of anything else. -/
def under (plus : Bool) (p : Path) : Path := if plus then p.repeatLast?.getD p else p

end Path

/-- A path element whose object gives its plus sign to the path, if it does. -/
def drifted? (subject : Term) (p : Path) (object : Term) (span : Span) : Option Element :=
  match p.repeatLast?, object.node.unsigned? with
  | some repeated, some node => some (.path subject repeated ⟨node, object.span⟩ span)
  | _, _ => none

/-- The element that is read in place of a written one. -/
def Element.drift : Element → Element
  | .triple t =>
    if t.predicate.node.isIri then
      (drifted? t.subject (.step t.predicate) t.object t.span).getD (.triple t)
    else .triple t
  | .path subject p object span => (drifted? subject p object span).getD (.path subject p object span)
  | e => e

theorem variables_of_unsigned? {node node' : Node} (h : node.unsigned? = some node') (span : Span) :
    Term.variables ⟨node', span⟩ = [] ∧ Term.variables ⟨node, span⟩ = [] := by
  cases node with
  | literal l =>
      obtain ⟨l', _, rfl⟩ := Option.map_eq_some_iff.mp h
      exact ⟨rfl, rfl⟩
  | _ => cases h

theorem boundVariables_drifted? {subject object : Term} {p : Path} {span : Span} {e : Element}
    (h : drifted? subject p object span = some e) :
    e.boundVariables = subject.variables ∧ object.variables = [] := by
  unfold drifted? at h
  split at h
  · next node _ unsigned =>
    obtain ⟨subject, value⟩ := variables_of_unsigned? unsigned object.span
    cases h
    refine ⟨?_, value⟩
    rw [Element.boundVariables, subject, List.append_nil]
  · cases h

theorem variables_of_isIri {t : Term} (h : t.node.isIri = true) : t.variables = [] := by
  obtain ⟨node, span⟩ := t
  cases node with
  | iri value => rfl
  | _ => cases h

theorem Element.boundVariables_drift (e : Element) : e.drift.boundVariables = e.boundVariables := by
  cases e with
  | triple t =>
      rw [drift]
      split
      · next isIri =>
        cases found : drifted? t.subject (.step t.predicate) t.object t.span with
        | none => rfl
        | some e =>
            obtain ⟨bound, value⟩ := boundVariables_drifted? found
            rw [Option.getD_some, bound]
            simp [boundVariables, value, variables_of_isIri isIri]
      · rfl
  | path subject p object span =>
      rw [drift]
      cases found : drifted? subject p object span with
      | none => rfl
      | some e =>
          obtain ⟨bound, value⟩ := boundVariables_drifted? found
          rw [Option.getD_some, bound]
          simp [boundVariables, value]
  | _ => rfl

/-- Replaces each element by the one that is read in its place, and every span by one. -/
def reread : Rewriting where
  span := fun _ => {}
  leaf := Element.drift
  boundVariables_leaf := Element.boundVariables_drift

theorem Term.rewrite_reread (t : Term) : t.rewrite reread = t.rewrite .withoutSpans := rfl

theorem Path.rewrite_reread (p : Path) : p.rewrite reread = p.rewrite .withoutSpans := by
  induction p with
  | step predicate => rfl
  | inverse inner ih => rw [rewrite, rewrite, ih]
  | repeated times inner ih => rw [rewrite, rewrite, ih]
  | negated inner ih => rw [rewrite, rewrite, ih]
  | join how left right ihLeft ihRight => rw [rewrite, rewrite, ihLeft, ihRight]

theorem Path.isJoin_rewrite (w : Rewriting) (p : Path) : (p.rewrite w).isJoin = p.isJoin := by
  cases p <;> rfl

theorem Path.repeatLast?_rewrite (w : Rewriting) (p : Path) :
    (p.rewrite w).repeatLast? = p.repeatLast?.map (Path.rewrite w) := by
  induction p with
  | step predicate => rfl
  | inverse inner _ => cases inner <;> rfl
  | repeated times inner _ => rfl
  | negated inner _ => rfl
  | join how left right _ ih =>
      rw [rewrite, repeatLast?, repeatLast?, isJoin_rewrite, ih]
      split
      · rfl
      · cases right.repeatLast? <;> rfl

/-- Whether a triple stays a triple: behind an IRI, its object has no plus sign to give away. -/
def Triple.Keeps (t : Triple) : Prop :=
  t.predicate.node.isIri = true → t.object.node.unsigned? = none

/-- Whether an element is read in its own place. -/
def Element.Keeps : Element → Prop
  | .triple t => t.Keeps
  | .path _ p object _ => p.repeatLast? = none ∨ object.node.unsigned? = none
  | _ => True

/-- The check that every element is read in its own place. -/
def keptChecks : NodeChecks where
  element := Element.Keeps

theorem node_reread (t : Term) : (t.rewrite reread).node = t.node :=
  Node.rewrite_of_iri rfl t.node

theorem drifted?_of_kept {subject object : Term} {p : Path} {span : Span}
    (kept : p.repeatLast? = none ∨ object.node.unsigned? = none) :
    drifted? (subject.rewrite reread) (p.rewrite reread) (object.rewrite reread) span = none := by
  rw [drifted?, Path.repeatLast?_rewrite, node_reread]
  rcases kept with absent | absent
  · rw [absent]
    rfl
  · rw [absent]
    cases p.repeatLast? <;> rfl

theorem Element.rewrite_triple {t : Triple} (keeps : t.Keeps) :
    (triple t).rewrite reread = .triple (t.rewrite reread) := by
  show drift (.triple (t.rewrite reread)) = _
  rw [drift]
  split
  · next isIri =>
    rw [Triple.rewrite, node_reread] at isIri
    have undrifted : drifted? (t.subject.rewrite reread) (Path.rewrite reread (.step t.predicate))
        (t.object.rewrite reread) {} = none := drifted?_of_kept (.inr (keeps isIri))
    exact congrArg (Option.getD · _) undrifted
  · rfl

theorem Element.rewrite_path {subject object : Term} {p : Path} {span : Span}
    (keeps : (path subject p object span).Keeps) :
    (path subject p object span).rewrite reread =
      .path (subject.rewrite reread) (p.rewrite reread) (object.rewrite reread) {} := by
  show drift (.path (subject.rewrite reread) (p.rewrite reread) (object.rewrite reread) {}) = _
  rw [drift, drifted?_of_kept keeps]
  rfl

mutual

theorem Expression.rewrite_of_kept : ∀ e : Expression, e.Everywhere keptChecks →
    e.rewrite reread = e.rewrite .withoutSpans
  | .term t span, _ => rfl
  | .unary op args span, ⟨_, h⟩ => by
    rw [Expression.rewrite, Expression.rewrite, Expression.rewriteAll_of_kept args h]
    rfl
  | .binary op args span, ⟨_, h⟩ => by
    rw [Expression.rewrite, Expression.rewrite, Expression.rewriteAll_of_kept args h]
    rfl
  | .call callee distinct args span, ⟨_, _, h⟩ => by
    rw [Expression.rewrite, Expression.rewrite, Expression.rewriteAll_of_kept args h]
    rfl
  | .aggregate name distinct star args separator span, ⟨_, h⟩ => by
    rw [Expression.rewrite, Expression.rewrite, Expression.rewriteAll_of_kept args h]
    rfl
  | .member negated args span, ⟨_, h⟩ => by
    rw [Expression.rewrite, Expression.rewrite, Expression.rewriteAll_of_kept args h]
    rfl
  | .exists negated none span, _ => rfl
  | .exists negated (some pattern) span, ⟨_, h⟩ => by
    rw [Expression.rewrite, Expression.rewrite, Group.rewrite_of_kept pattern h]
    rfl

theorem Expression.rewriteAll_of_kept : ∀ es : List Expression,
    Expression.EverywhereAll keptChecks es →
      Expression.rewriteAll reread es = Expression.rewriteAll .withoutSpans es
  | [], _ => rfl
  | e :: rest, ⟨he, hrest⟩ => by
    rw [Expression.rewriteAll, Expression.rewriteAll, Expression.rewrite_of_kept e he,
      Expression.rewriteAll_of_kept rest hrest]

theorem Element.rewrite_of_kept : ∀ e : Element, e.Everywhere keptChecks →
    e.rewrite reread = e.rewrite .withoutSpans
  | .triple t, ⟨keeps, _⟩ => Element.rewrite_triple keeps
  | .path subject p object span, ⟨keeps, _⟩ => by
    rw [Element.rewrite_path keeps, p.rewrite_reread]
    rfl
  | .filter condition span, ⟨_, h⟩ => by
    rw [Element.rewrite, Element.rewrite, Expression.rewrite_of_kept condition h]
    rfl
  | .subquery none span, _ => rfl
  | .subquery (some query) span, ⟨_, h⟩ => by
    rw [Element.rewrite, Element.rewrite, Query.rewrite_of_kept query h]
    rfl
  | .bind value target span, ⟨_, h, _⟩ => by
    rw [Element.rewrite, Element.rewrite, Expression.rewrite_of_kept value h]
    rfl

theorem Element.rewriteAll_of_kept : ∀ es : List Element, Element.EverywhereAll keptChecks es →
    Element.rewriteAll reread es = Element.rewriteAll .withoutSpans es
  | [], _ => rfl
  | e :: rest, ⟨he, hrest⟩ => by
    rw [Element.rewriteAll, Element.rewriteAll, Element.rewrite_of_kept e he,
      Element.rewriteAll_of_kept rest hrest]

theorem Group.rewrite_of_kept : ∀ g : Group, g.Everywhere keptChecks →
    g.rewrite reread = g.rewrite .withoutSpans
  | ⟨kind, elements, children, data, span⟩, ⟨_, _, helements, hchildren, _⟩ => by
    rw [Group.rewrite, Group.rewrite, Element.rewriteAll_of_kept elements helements,
      Group.rewriteAll_of_kept children hchildren]
    rfl

theorem Group.rewriteAll_of_kept : ∀ gs : List Group, Group.EverywhereAll keptChecks gs →
    Group.rewriteAll reread gs = Group.rewriteAll .withoutSpans gs
  | [], _ => rfl
  | g :: rest, ⟨hg, hrest⟩ => by
    rw [Group.rewriteAll, Group.rewriteAll, Group.rewrite_of_kept g hg,
      Group.rewriteAll_of_kept rest hrest]

theorem Projection.rewriteAll_of_kept : ∀ ps : List Projection,
    Projection.EverywhereAll keptChecks ps →
      Projection.rewriteAll reread ps = Projection.rewriteAll .withoutSpans ps
  | [], _ => rfl
  | ⟨name, none, span⟩ :: rest, hrest => by
    rw [Projection.rewriteAll, Projection.rewriteAll, Projection.rewriteAll_of_kept rest hrest]
    rfl
  | ⟨name, some value, span⟩ :: rest, ⟨hvalue, hrest⟩ => by
    rw [Projection.rewriteAll, Projection.rewriteAll, Projection.rewriteAll_of_kept rest hrest,
      Projection.rewrite, Projection.rewrite, Expression.rewrite_of_kept value hvalue]
    rfl

theorem Form.rewrite_of_kept : ∀ form : Form, form.Everywhere keptChecks →
    form.rewrite reread = form.rewrite .withoutSpans
  | .select modifier everything items, h => by
    rw [Form.rewrite, Form.rewrite, Projection.rewriteAll_of_kept items h]
  | .ask, _ => rfl
  | .construct template, _ => rfl
  | .describe everything targets, _ => rfl

theorem GroupCondition.rewriteAll_of_kept : ∀ cs : List GroupCondition,
    GroupCondition.EverywhereAll keptChecks cs →
      GroupCondition.rewriteAll reread cs = GroupCondition.rewriteAll .withoutSpans cs
  | [], _ => rfl
  | ⟨value, name⟩ :: rest, ⟨hvalue, hrest⟩ => by
    rw [GroupCondition.rewriteAll, GroupCondition.rewriteAll,
      Expression.rewrite_of_kept value hvalue, GroupCondition.rewriteAll_of_kept rest hrest]

theorem OrderCondition.rewriteAll_of_kept : ∀ cs : List OrderCondition,
    OrderCondition.EverywhereAll keptChecks cs →
      OrderCondition.rewriteAll reread cs = OrderCondition.rewriteAll .withoutSpans cs
  | [], _ => rfl
  | ⟨value, direction⟩ :: rest, ⟨hvalue, hrest⟩ => by
    rw [OrderCondition.rewriteAll, OrderCondition.rewriteAll,
      Expression.rewrite_of_kept value hvalue, OrderCondition.rewriteAll_of_kept rest hrest]

/-- A query whose elements are all read in their own places is read as itself. -/
theorem Query.rewrite_of_kept : ∀ q : Query, q.Everywhere keptChecks →
    q.rewrite reread = q.rewrite .withoutSpans
  | ⟨form, names, dataset, root, groupBy, having, orderBy, limit, offset, values, span⟩,
      ⟨_, hform, hroot, hgroup, hhaving, horder, _⟩ => by
    rw [Query.rewrite, Query.rewrite, Form.rewrite_of_kept form hform,
      Group.rewrite_of_kept root hroot, GroupCondition.rewriteAll_of_kept groupBy hgroup,
      Expression.rewriteAll_of_kept having hhaving,
      OrderCondition.rewriteAll_of_kept orderBy horder]
    rfl

end

end SparqlMetrics
