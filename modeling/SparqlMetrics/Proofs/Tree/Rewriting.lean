import SparqlMetrics.Algebra.ResultVariables

/-!
# Rewriting trees

A rewriting replaces the IRIs and the spans of a tree and then, from below, the triples and paths
that have been rewritten so. Two trees that a rewriting makes equal differ only in what it replaces:
with every span replaced by one, they are equal up to spans. The variables that a pattern binds are
kept by every rewriting.
-/
namespace SparqlMetrics

/-- A replacement of IRIs, spans and single triples. -/
structure Rewriting where
  iri : Text → Text := id
  span : Span → Span := id
  leaf : Element → Element := id
  boundVariables_leaf : ∀ e, (leaf e).boundVariables = e.boundVariables := by intro; rfl

theorem Element.boundVariables_id (e : Element) : (id e).boundVariables = e.boundVariables := rfl

def Rewriting.withoutSpans : Rewriting := { span := fun _ => {} }

def Literal.rewrite (w : Rewriting) (l : Literal) : Literal :=
  { l with datatype := l.datatype.map w.iri }

def Node.rewrite (w : Rewriting) : Node → Node
  | .iri value => .iri (w.iri value)
  | .literal l => .literal (l.rewrite w)
  | .blank label => .blank label
  | .var name => .var name

def Term.rewrite (w : Rewriting) (t : Term) : Term := ⟨t.node.rewrite w, w.span t.span⟩

def Triple.rewrite (w : Rewriting) (t : Triple) : Triple :=
  ⟨t.subject.rewrite w, t.predicate.rewrite w, t.object.rewrite w, w.span t.span⟩

def InlineData.rewrite (w : Rewriting) (d : InlineData) : InlineData :=
  ⟨d.columns, d.rows.map fun cells => cells.map (Option.map (Term.rewrite w)), w.span d.span⟩

def Path.rewrite (w : Rewriting) : Path → Path
  | .step predicate => .step (predicate.rewrite w)
  | .inverse inner => .inverse (inner.rewrite w)
  | .repeated times inner => .repeated times (inner.rewrite w)
  | .negated inner => .negated (inner.rewrite w)
  | .join how left right => .join how (left.rewrite w) (right.rewrite w)

def Callee.rewrite (w : Rewriting) : Callee → Callee
  | .builtin name => .builtin name
  | .iri function => .iri (function.rewrite w)

def GroupKind.rewrite (w : Rewriting) : GroupKind → GroupKind
  | .graph name => .graph (name.map (Term.rewrite w))
  | .service endpoint silent => .service (endpoint.map (Term.rewrite w)) silent
  | kind => kind

def DatasetClause.rewrite (w : Rewriting) (clause : DatasetClause) : DatasetClause :=
  ⟨w.iri clause.iri, clause.named⟩

mutual

@[simp] def Expression.rewrite (w : Rewriting) : Expression → Expression
  | .term t span => .term (t.rewrite w) (w.span span)
  | .unary op args span => .unary op (Expression.rewriteAll w args) (w.span span)
  | .binary op args span => .binary op (Expression.rewriteAll w args) (w.span span)
  | .call callee distinct args span =>
    .call (callee.rewrite w) distinct (Expression.rewriteAll w args) (w.span span)
  | .aggregate name distinct star args separator span =>
    .aggregate name distinct star (Expression.rewriteAll w args) separator (w.span span)
  | .member negated args span => .member negated (Expression.rewriteAll w args) (w.span span)
  | .exists negated none span => .exists negated none (w.span span)
  | .exists negated (some pattern) span =>
    .exists negated (some (pattern.rewrite w)) (w.span span)

@[simp] def Expression.rewriteAll (w : Rewriting) : List Expression → List Expression
  | [] => []
  | e :: rest => e.rewrite w :: Expression.rewriteAll w rest

@[simp] def Element.rewrite (w : Rewriting) : Element → Element
  | .triple t => w.leaf (.triple (t.rewrite w))
  | .path subject p object span =>
    w.leaf (.path (subject.rewrite w) (p.rewrite w) (object.rewrite w) (w.span span))
  | .filter condition span => .filter (condition.rewrite w) (w.span span)
  | .subquery none span => .subquery none (w.span span)
  | .subquery (some query) span => .subquery (some (query.rewrite w)) (w.span span)
  | .bind value target span => .bind (value.rewrite w) (target.rewrite w) (w.span span)

@[simp] def Element.rewriteAll (w : Rewriting) : List Element → List Element
  | [] => []
  | e :: rest => e.rewrite w :: Element.rewriteAll w rest

def Group.rewrite (w : Rewriting) : Group → Group
  | ⟨kind, elements, children, data, span⟩ =>
    ⟨kind.rewrite w, Element.rewriteAll w elements, Group.rewriteAll w children,
      data.map (InlineData.rewrite w), w.span span⟩

def Group.rewriteAll (w : Rewriting) : List Group → List Group
  | [] => []
  | g :: rest => g.rewrite w :: Group.rewriteAll w rest

def Projection.rewrite (w : Rewriting) : Projection → Projection
  | ⟨name, none, span⟩ => ⟨name, none, w.span span⟩
  | ⟨name, some value, span⟩ => ⟨name, some (value.rewrite w), w.span span⟩

def Projection.rewriteAll (w : Rewriting) : List Projection → List Projection
  | [] => []
  | p :: rest => p.rewrite w :: Projection.rewriteAll w rest

def Form.rewrite (w : Rewriting) : Form → Form
  | .select modifier everything items =>
    .select modifier everything (Projection.rewriteAll w items)
  | .ask => .ask
  | .construct template => .construct (template.map (Triple.rewrite w))
  | .describe everything targets => .describe everything (targets.map (Term.rewrite w))

def GroupCondition.rewriteAll (w : Rewriting) : List GroupCondition → List GroupCondition
  | [] => []
  | ⟨value, name⟩ :: rest => ⟨value.rewrite w, name⟩ :: GroupCondition.rewriteAll w rest

def OrderCondition.rewriteAll (w : Rewriting) : List OrderCondition → List OrderCondition
  | [] => []
  | ⟨value, direction⟩ :: rest =>
    ⟨value.rewrite w, direction⟩ :: OrderCondition.rewriteAll w rest

/-- A query with its parts replaced. -/
def Query.rewrite (w : Rewriting) : Query → Query
  | ⟨form, names, dataset, root, groupBy, having, orderBy, limit, offset, values, span⟩ =>
    ⟨form.rewrite w, names, dataset.map (DatasetClause.rewrite w), root.rewrite w,
      GroupCondition.rewriteAll w groupBy, Expression.rewriteAll w having,
      OrderCondition.rewriteAll w orderBy, limit, offset, values.map (InlineData.rewrite w),
      w.span span⟩

end

def GroupCondition.rewrite (w : Rewriting) (c : GroupCondition) : GroupCondition :=
  ⟨c.value.rewrite w, c.name⟩

def OrderCondition.rewrite (w : Rewriting) (c : OrderCondition) : OrderCondition :=
  ⟨c.value.rewrite w, c.direction⟩

theorem Node.rewrite_of_iri {w : Rewriting} (h : w.iri = id) (node : Node) :
    node.rewrite w = node := by
  cases node with
  | iri value => rw [rewrite, h, id]
  | literal l =>
      have same : l.datatype.map w.iri = l.datatype := by rw [h, Option.map_id, id]
      rw [rewrite, Literal.rewrite, same]
  | _ => rfl

section Lists
variable (w : Rewriting)

theorem Expression.rewriteAll_eq_map (es : List Expression) :
    Expression.rewriteAll w es = es.map (Expression.rewrite w) := by
  induction es with
  | nil => rfl
  | cons e rest ih => rw [Expression.rewriteAll, ih, List.map_cons]

theorem Element.rewriteAll_eq_map (es : List Element) :
    Element.rewriteAll w es = es.map (Element.rewrite w) := by
  induction es with
  | nil => rfl
  | cons e rest ih => rw [Element.rewriteAll, ih, List.map_cons]

theorem Group.rewriteAll_eq_map (gs : List Group) :
    Group.rewriteAll w gs = gs.map (Group.rewrite w) := by
  induction gs with
  | nil => rfl
  | cons g rest ih => rw [Group.rewriteAll, ih, List.map_cons]

theorem Projection.rewriteAll_eq_map (ps : List Projection) :
    Projection.rewriteAll w ps = ps.map (Projection.rewrite w) := by
  induction ps with
  | nil => rfl
  | cons p rest ih => rw [Projection.rewriteAll, ih, List.map_cons]

theorem GroupCondition.rewriteAll_eq_map (cs : List GroupCondition) :
    GroupCondition.rewriteAll w cs = cs.map (GroupCondition.rewrite w) := by
  induction cs with
  | nil => rfl
  | cons c rest ih =>
      obtain ⟨value, name⟩ := c
      rw [GroupCondition.rewriteAll, ih, List.map_cons, GroupCondition.rewrite]

theorem OrderCondition.rewriteAll_eq_map (cs : List OrderCondition) :
    OrderCondition.rewriteAll w cs = cs.map (OrderCondition.rewrite w) := by
  induction cs with
  | nil => rfl
  | cons c rest ih =>
      obtain ⟨value, direction⟩ := c
      rw [OrderCondition.rewriteAll, ih, List.map_cons, OrderCondition.rewrite]

end Lists

section Variables
variable (w : Rewriting)

theorem Term.variables_rewrite (t : Term) : (t.rewrite w).variables = t.variables := by
  obtain ⟨node, span⟩ := t
  cases node <;> rfl

theorem Element.boundVariables_rewrite (e : Element) :
    (e.rewrite w).boundVariables = e.boundVariables := by
  cases e with
  | triple t =>
      rw [Element.rewrite, w.boundVariables_leaf]
      simp [Element.boundVariables, Triple.rewrite, Term.variables_rewrite]
  | path subject p object span =>
      rw [Element.rewrite, w.boundVariables_leaf]
      simp [Element.boundVariables, Term.variables_rewrite]
  | filter condition span => rw [Element.rewrite]; rfl
  | subquery query span =>
      cases query with
      | none =>
          rw [Element.rewrite]
          rfl
      | some query =>
          rw [Element.rewrite]
          cases query
          simp [Element.boundVariables, Query.rewrite]
  | bind value target span =>
      simp [Element.rewrite, Element.boundVariables, Term.variables_rewrite]

theorem GroupKind.boundVariables_rewrite (kind : GroupKind) :
    (kind.rewrite w).boundVariables = kind.boundVariables := by
  rcases kind with _ | _ | _ | _ | name | ⟨endpoint, silent⟩ <;> try rfl
  cases name with
  | none => rfl
  | some name => exact Term.variables_rewrite w name

theorem columnsOf_map_rewrite (d : Option InlineData) :
    columnsOf (d.map (InlineData.rewrite w)) = columnsOf d := by
  cases d <;> rfl

mutual

theorem Group.boundVariables_rewrite :
    ∀ g : Group, (g.rewrite w).boundVariables = g.boundVariables
  | ⟨kind, elements, children, data, _⟩ => by
    simp only [Group.rewrite, Group.boundVariables, Element.rewriteAll_eq_map, List.flatMap_map,
      Element.boundVariables_rewrite, columnsOf_map_rewrite, GroupKind.boundVariables_rewrite,
      Group.boundByChildren_rewrite children]

theorem Group.boundByChildren_rewrite : ∀ gs : List Group,
    Group.boundByChildren (Group.rewriteAll w gs) = Group.boundByChildren gs
  | [] => rfl
  | ⟨kind, elements, children, data, span⟩ :: rest => by
    have head := Group.boundVariables_rewrite ⟨kind, elements, children, data, span⟩
    have tail := Group.boundByChildren_rewrite rest
    rw [Group.rewriteAll, Group.rewrite] at *
    cases kind <;> simp [GroupKind.rewrite, Group.boundByChildren, tail] at head ⊢ <;> exact head

end

theorem Form.resultVariables_rewrite (form : Form) (root : Group) (values : Option InlineData) :
    (form.rewrite w).resultVariables (root.rewrite w) (values.map (InlineData.rewrite w)) =
      form.resultVariables root values := by
  have names : ∀ items : List Projection,
      (items.map (Projection.rewrite w)).map (·.name) = items.map (·.name) := by
    intro items
    rw [List.map_map]
    refine List.map_congr_left fun item _ => ?_
    obtain ⟨name, value, span⟩ := item
    cases value <;> rfl
  have bound := Group.boundVariables_rewrite w root
  have columns := columnsOf_map_rewrite w values
  cases form with
  | select modifier everything items =>
      cases everything with
      | true => simp [Form.rewrite, Form.resultVariables, bound, columns]
      | false =>
          simp [Form.rewrite, Form.resultVariables, Projection.rewriteAll_eq_map, names items]
  | ask => simp [Form.rewrite, Form.resultVariables, bound, columns]
  | construct template => simp [Form.rewrite, Form.resultVariables, bound, columns]
  | describe everything targets =>
      cases everything with
      | true => simp [Form.rewrite, Form.resultVariables, bound, columns]
      | false =>
          simp [Form.rewrite, Form.resultVariables, List.flatMap_map, Term.variables_rewrite]

end Variables

end SparqlMetrics
