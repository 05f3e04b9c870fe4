import SparqlMetrics.Algebra.Query

/-!
# Checks at every node

A check of query trees is given by what it asks of the single nodes: of terms, tables, expressions,
elements, groups and queries. A tree passes when every node in it does, at any depth: in arguments
of expressions, patterns of EXISTS tests, child groups and sub-queries. Steps of a path are no nodes;
a check sees them from the element that holds the path. Main statement: `Query.everywhere_together`, a
check at the nodes that two others ask for together is so for the whole tree.
-/
namespace SparqlMetrics

/-- What is asked of the nodes of a tree. -/
structure NodeChecks where
  term : Term → Prop := fun _ => True
  data : InlineData → Prop := fun _ => True
  expression : Expression → Prop := fun _ => True
  element : Element → Prop := fun _ => True
  group : Group → Prop := fun _ => True
  query : Query → Prop := fun _ => True

/-- Whether each check of one kind asks for the one of another. -/
structure NodeChecks.Implies (P Q : NodeChecks) : Prop where
  term : ∀ t, P.term t → Q.term t
  data : ∀ d, P.data d → Q.data d
  expression : ∀ e, P.expression e → Q.expression e
  element : ∀ e, P.element e → Q.element e
  group : ∀ g, P.group g → Q.group g
  query : ∀ q, P.query q → Q.query q

/-- Whether the checks of two kinds together ask for the one of a third. -/
structure NodeChecks.Together (P Q R : NodeChecks) : Prop where
  term : ∀ t, P.term t → Q.term t → R.term t
  data : ∀ d, P.data d → Q.data d → R.data d
  expression : ∀ e, P.expression e → Q.expression e → R.expression e
  element : ∀ e, P.element e → Q.element e → R.element e
  group : ∀ g, P.group g → Q.group g → R.group g
  query : ∀ q, P.query q → Q.query q → R.query q

def Triple.Everywhere (P : NodeChecks) (t : Triple) : Prop :=
  P.term t.subject ∧ P.term t.predicate ∧ P.term t.object

def InlineData.Everywhere (P : NodeChecks) (d : InlineData) : Prop :=
  P.data d ∧ ∀ row ∈ d.rows, ∀ t, some t ∈ row → P.term t

def tableEverywhere (P : NodeChecks) : Option InlineData → Prop
  | none => True
  | some d => d.Everywhere P

def Callee.Everywhere (P : NodeChecks) : Callee → Prop
  | .builtin _ => True
  | .iri function => P.term function

def GroupKind.Everywhere (P : NodeChecks) : GroupKind → Prop
  | .graph (some name) => P.term name
  | .service (some endpoint) _ => P.term endpoint
  | _ => True

mutual

/-- Whether every node of an expression passes. -/
@[simp] def Expression.Everywhere (P : NodeChecks) : Expression → Prop
  | .term t span => P.expression (.term t span) ∧ P.term t
  | .unary op args span => P.expression (.unary op args span) ∧ Expression.EverywhereAll P args
  | .binary op args span => P.expression (.binary op args span) ∧ Expression.EverywhereAll P args
  | .call callee distinct args span =>
    P.expression (.call callee distinct args span) ∧ callee.Everywhere P ∧
      Expression.EverywhereAll P args
  | .aggregate name distinct star args separator span =>
    P.expression (.aggregate name distinct star args separator span) ∧
      Expression.EverywhereAll P args
  | .member negated args span =>
    P.expression (.member negated args span) ∧ Expression.EverywhereAll P args
  | .exists negated none span => P.expression (.exists negated none span)
  | .exists negated (some pattern) span =>
    P.expression (.exists negated (some pattern) span) ∧ pattern.Everywhere P

@[simp] def Expression.EverywhereAll (P : NodeChecks) : List Expression → Prop
  | [] => True
  | e :: rest => e.Everywhere P ∧ Expression.EverywhereAll P rest

@[simp] def Element.Everywhere (P : NodeChecks) : Element → Prop
  | .triple t => P.element (.triple t) ∧ t.Everywhere P
  | .path subject path object span =>
    P.element (.path subject path object span) ∧ P.term subject ∧ P.term object
  | .filter condition span => P.element (.filter condition span) ∧ condition.Everywhere P
  | .subquery none span => P.element (.subquery none span)
  | .subquery (some query) span => P.element (.subquery (some query) span) ∧ query.Everywhere P
  | .bind value target span =>
    P.element (.bind value target span) ∧ value.Everywhere P ∧ P.term target

@[simp] def Element.EverywhereAll (P : NodeChecks) : List Element → Prop
  | [] => True
  | e :: rest => e.Everywhere P ∧ Element.EverywhereAll P rest

@[simp] def Group.Everywhere (P : NodeChecks) : Group → Prop
  | ⟨kind, elements, children, data, span⟩ =>
    P.group ⟨kind, elements, children, data, span⟩ ∧ kind.Everywhere P ∧
      Element.EverywhereAll P elements ∧ Group.EverywhereAll P children ∧ tableEverywhere P data

@[simp] def Group.EverywhereAll (P : NodeChecks) : List Group → Prop
  | [] => True
  | g :: rest => g.Everywhere P ∧ Group.EverywhereAll P rest

@[simp] def Projection.EverywhereAll (P : NodeChecks) : List Projection → Prop
  | [] => True
  | ⟨_, none, _⟩ :: rest => Projection.EverywhereAll P rest
  | ⟨_, some value, _⟩ :: rest => value.Everywhere P ∧ Projection.EverywhereAll P rest

@[simp] def Form.Everywhere (P : NodeChecks) : Form → Prop
  | .select _ _ items => Projection.EverywhereAll P items
  | .ask => True
  | .construct template => ∀ t ∈ template, t.Everywhere P
  | .describe _ targets => ∀ t ∈ targets, P.term t

@[simp] def GroupCondition.EverywhereAll (P : NodeChecks) : List GroupCondition → Prop
  | [] => True
  | ⟨value, _⟩ :: rest => value.Everywhere P ∧ GroupCondition.EverywhereAll P rest

@[simp] def OrderCondition.EverywhereAll (P : NodeChecks) : List OrderCondition → Prop
  | [] => True
  | ⟨value, _⟩ :: rest => value.Everywhere P ∧ OrderCondition.EverywhereAll P rest

/-- Whether every node of a query passes. -/
@[simp] def Query.Everywhere (P : NodeChecks) : Query → Prop
  | ⟨form, names, dataset, root, groupBy, having, orderBy, limit, offset, values, span⟩ =>
    P.query ⟨form, names, dataset, root, groupBy, having, orderBy, limit, offset, values, span⟩ ∧
      form.Everywhere P ∧ root.Everywhere P ∧ GroupCondition.EverywhereAll P groupBy ∧
      Expression.EverywhereAll P having ∧ OrderCondition.EverywhereAll P orderBy ∧
      tableEverywhere P values

end

section Lists
variable {P : NodeChecks}

theorem Expression.everywhereAll_iff {es : List Expression} :
    Expression.EverywhereAll P es ↔ ∀ e ∈ es, e.Everywhere P := by
  induction es with
  | nil => simp [Expression.EverywhereAll]
  | cons e rest ih => simp [Expression.EverywhereAll, ih]

theorem Element.everywhereAll_iff {es : List Element} :
    Element.EverywhereAll P es ↔ ∀ e ∈ es, e.Everywhere P := by
  induction es with
  | nil => simp [Element.EverywhereAll]
  | cons e rest ih => simp [Element.EverywhereAll, ih]

theorem Group.everywhereAll_iff {gs : List Group} :
    Group.EverywhereAll P gs ↔ ∀ g ∈ gs, g.Everywhere P := by
  induction gs with
  | nil => simp [Group.EverywhereAll]
  | cons g rest ih => simp [Group.EverywhereAll, ih]

theorem Projection.everywhereAll_iff {ps : List Projection} :
    Projection.EverywhereAll P ps ↔ ∀ p ∈ ps, ∀ e, p.value = some e → e.Everywhere P := by
  induction ps with
  | nil => simp [Projection.EverywhereAll]
  | cons p rest ih =>
      obtain ⟨name, value, span⟩ := p
      cases value <;> simp [Projection.EverywhereAll, ih]

theorem GroupCondition.everywhereAll_iff {cs : List GroupCondition} :
    GroupCondition.EverywhereAll P cs ↔ ∀ c ∈ cs, c.value.Everywhere P := by
  induction cs with
  | nil => simp [GroupCondition.EverywhereAll]
  | cons c rest ih =>
      obtain ⟨value, name⟩ := c
      simp [GroupCondition.EverywhereAll, ih]

theorem OrderCondition.everywhereAll_iff {cs : List OrderCondition} :
    OrderCondition.EverywhereAll P cs ↔ ∀ c ∈ cs, c.value.Everywhere P := by
  induction cs with
  | nil => simp [OrderCondition.EverywhereAll]
  | cons c rest ih =>
      obtain ⟨value, direction⟩ := c
      simp [OrderCondition.EverywhereAll, ih]

/-- Every node of a query passes if the query does and every node of its parts. -/
theorem Query.everywhere_iff {q : Query} : q.Everywhere P ↔
    P.query q ∧ q.form.Everywhere P ∧ q.root.Everywhere P ∧
      (∀ c ∈ q.groupBy, c.value.Everywhere P) ∧ (∀ e ∈ q.having, e.Everywhere P) ∧
      (∀ c ∈ q.orderBy, c.value.Everywhere P) ∧ tableEverywhere P q.values := by
  rw [← GroupCondition.everywhereAll_iff, ← Expression.everywhereAll_iff,
    ← OrderCondition.everywhereAll_iff]
  cases q
  exact Iff.rfl

end Lists

section Together
variable {P Q R : NodeChecks}

theorem NodeChecks.Implies.together (h : P.Implies Q) : P.Together P Q where
  term t ht _ := h.term t ht
  data d hd _ := h.data d hd
  expression e he _ := h.expression e he
  element e he _ := h.element e he
  group g hg _ := h.group g hg
  query q hq _ := h.query q hq

theorem Triple.Everywhere.together (h : P.Together Q R) {t : Triple} (hP : t.Everywhere P)
    (hQ : t.Everywhere Q) : t.Everywhere R :=
  ⟨h.term _ hP.1 hQ.1, h.term _ hP.2.1 hQ.2.1, h.term _ hP.2.2 hQ.2.2⟩

theorem tableEverywhere_together (h : P.Together Q R) :
    ∀ d : Option InlineData, tableEverywhere P d → tableEverywhere Q d → tableEverywhere R d
  | none, _, _ => trivial
  | some d, hP, hQ =>
    ⟨h.data d hP.1 hQ.1, fun row hrow t ht => h.term t (hP.2 row hrow t ht) (hQ.2 row hrow t ht)⟩

theorem Callee.Everywhere.together (h : P.Together Q R) {c : Callee} (hP : c.Everywhere P)
    (hQ : c.Everywhere Q) : c.Everywhere R := by
  cases c with
  | builtin => trivial
  | iri function => exact h.term _ hP hQ

theorem GroupKind.Everywhere.together (h : P.Together Q R) {k : GroupKind} (hP : k.Everywhere P)
    (hQ : k.Everywhere Q) : k.Everywhere R := by
  rcases k with _ | _ | _ | _ | name | ⟨endpoint, silent⟩ <;> try trivial
  · cases name with
    | none => trivial
    | some name => exact h.term _ hP hQ
  · cases endpoint with
    | none => trivial
    | some endpoint => exact h.term _ hP hQ

mutual

theorem Expression.everywhere_together (h : P.Together Q R) :
    ∀ e : Expression, e.Everywhere P → e.Everywhere Q → e.Everywhere R
  | .term t _, ⟨he, ht⟩, ⟨he', ht'⟩ => ⟨h.expression _ he he', h.term t ht ht'⟩
  | .unary _ args _, ⟨he, ha⟩, ⟨he', ha'⟩ =>
    ⟨h.expression _ he he', Expression.everywhereAll_together h args ha ha'⟩
  | .binary _ args _, ⟨he, ha⟩, ⟨he', ha'⟩ =>
    ⟨h.expression _ he he', Expression.everywhereAll_together h args ha ha'⟩
  | .call _ _ args _, ⟨he, hc, ha⟩, ⟨he', hc', ha'⟩ =>
    ⟨h.expression _ he he', hc.together h hc', Expression.everywhereAll_together h args ha ha'⟩
  | .aggregate _ _ _ args _ _, ⟨he, ha⟩, ⟨he', ha'⟩ =>
    ⟨h.expression _ he he', Expression.everywhereAll_together h args ha ha'⟩
  | .member _ args _, ⟨he, ha⟩, ⟨he', ha'⟩ =>
    ⟨h.expression _ he he', Expression.everywhereAll_together h args ha ha'⟩
  | .exists _ none _, he, he' => h.expression _ he he'
  | .exists _ (some pattern) _, ⟨he, hp⟩, ⟨he', hp'⟩ =>
    ⟨h.expression _ he he', Group.everywhere_together h pattern hp hp'⟩

theorem Expression.everywhereAll_together (h : P.Together Q R) :
    ∀ es : List Expression, Expression.EverywhereAll P es → Expression.EverywhereAll Q es →
      Expression.EverywhereAll R es
  | [], _, _ => trivial
  | e :: rest, ⟨he, hr⟩, ⟨he', hr'⟩ =>
    ⟨Expression.everywhere_together h e he he', Expression.everywhereAll_together h rest hr hr'⟩

theorem Element.everywhere_together (h : P.Together Q R) :
    ∀ e : Element, e.Everywhere P → e.Everywhere Q → e.Everywhere R
  | .triple _, ⟨he, ht⟩, ⟨he', ht'⟩ => ⟨h.element _ he he', ht.together h ht'⟩
  | .path _ _ _ _, ⟨he, hs, ho⟩, ⟨he', hs', ho'⟩ =>
    ⟨h.element _ he he', h.term _ hs hs', h.term _ ho ho'⟩
  | .filter condition _, ⟨he, hc⟩, ⟨he', hc'⟩ =>
    ⟨h.element _ he he', Expression.everywhere_together h condition hc hc'⟩
  | .subquery none _, he, he' => h.element _ he he'
  | .subquery (some query) _, ⟨he, hq⟩, ⟨he', hq'⟩ =>
    ⟨h.element _ he he', Query.everywhere_together h query hq hq'⟩
  | .bind value _ _, ⟨he, hv, ht⟩, ⟨he', hv', ht'⟩ =>
    ⟨h.element _ he he', Expression.everywhere_together h value hv hv', h.term _ ht ht'⟩

theorem Element.everywhereAll_together (h : P.Together Q R) :
    ∀ es : List Element, Element.EverywhereAll P es → Element.EverywhereAll Q es →
      Element.EverywhereAll R es
  | [], _, _ => trivial
  | e :: rest, ⟨he, hr⟩, ⟨he', hr'⟩ =>
    ⟨Element.everywhere_together h e he he', Element.everywhereAll_together h rest hr hr'⟩

theorem Group.everywhere_together (h : P.Together Q R) :
    ∀ g : Group, g.Everywhere P → g.Everywhere Q → g.Everywhere R
  | ⟨_, elements, children, data, _⟩, ⟨hg, hk, he, hc, hd⟩, ⟨hg', hk', he', hc', hd'⟩ =>
    ⟨h.group _ hg hg', hk.together h hk', Element.everywhereAll_together h elements he he',
      Group.everywhereAll_together h children hc hc', tableEverywhere_together h data hd hd'⟩

theorem Group.everywhereAll_together (h : P.Together Q R) :
    ∀ gs : List Group, Group.EverywhereAll P gs → Group.EverywhereAll Q gs →
      Group.EverywhereAll R gs
  | [], _, _ => trivial
  | g :: rest, ⟨hg, hr⟩, ⟨hg', hr'⟩ =>
    ⟨Group.everywhere_together h g hg hg', Group.everywhereAll_together h rest hr hr'⟩

theorem Projection.everywhereAll_together (h : P.Together Q R) :
    ∀ ps : List Projection, Projection.EverywhereAll P ps → Projection.EverywhereAll Q ps →
      Projection.EverywhereAll R ps
  | [], _, _ => trivial
  | ⟨_, none, _⟩ :: rest, hr, hr' => Projection.everywhereAll_together h rest hr hr'
  | ⟨_, some value, _⟩ :: rest, ⟨hv, hr⟩, ⟨hv', hr'⟩ =>
    ⟨Expression.everywhere_together h value hv hv', Projection.everywhereAll_together h rest hr hr'⟩

theorem Form.everywhere_together (h : P.Together Q R) :
    ∀ f : Form, f.Everywhere P → f.Everywhere Q → f.Everywhere R
  | .select _ _ items, hi, hi' => Projection.everywhereAll_together h items hi hi'
  | .ask, _, _ => trivial
  | .construct _, ht, ht' => fun t mem => (ht t mem).together h (ht' t mem)
  | .describe _ _, ht, ht' => fun t mem => h.term t (ht t mem) (ht' t mem)

theorem GroupCondition.everywhereAll_together (h : P.Together Q R) :
    ∀ cs : List GroupCondition, GroupCondition.EverywhereAll P cs →
      GroupCondition.EverywhereAll Q cs → GroupCondition.EverywhereAll R cs
  | [], _, _ => trivial
  | ⟨value, _⟩ :: rest, ⟨hv, hr⟩, ⟨hv', hr'⟩ =>
    ⟨Expression.everywhere_together h value hv hv',
      GroupCondition.everywhereAll_together h rest hr hr'⟩

theorem OrderCondition.everywhereAll_together (h : P.Together Q R) :
    ∀ cs : List OrderCondition, OrderCondition.EverywhereAll P cs →
      OrderCondition.EverywhereAll Q cs → OrderCondition.EverywhereAll R cs
  | [], _, _ => trivial
  | ⟨value, _⟩ :: rest, ⟨hv, hr⟩, ⟨hv', hr'⟩ =>
    ⟨Expression.everywhere_together h value hv hv',
      OrderCondition.everywhereAll_together h rest hr hr'⟩

/-- A tree that passes two checks passes every check that they ask for together. -/
theorem Query.everywhere_together (h : P.Together Q R) :
    ∀ q : Query, q.Everywhere P → q.Everywhere Q → q.Everywhere R
  | ⟨form, _, _, root, groupBy, having, orderBy, _, _, values, _⟩, ⟨hq, hf, hr, hg, hh, ho, hv⟩,
      ⟨hq', hf', hr', hg', hh', ho', hv'⟩ =>
    ⟨h.query _ hq hq', Form.everywhere_together h form hf hf',
      Group.everywhere_together h root hr hr',
      GroupCondition.everywhereAll_together h groupBy hg hg',
      Expression.everywhereAll_together h having hh hh',
      OrderCondition.everywhereAll_together h orderBy ho ho',
      tableEverywhere_together h values hv hv'⟩

end

/-- A tree that passes a check passes every weaker one. -/
theorem Query.everywhere_mono (h : P.Implies Q) (q : Query) (hP : q.Everywhere P) :
    q.Everywhere Q := q.everywhere_together h.together hP hP

end Together

end SparqlMetrics
