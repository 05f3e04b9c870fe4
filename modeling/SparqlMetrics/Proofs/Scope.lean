import SparqlMetrics.Proofs.Grammar.LegalQueries
import SparqlMetrics.Proofs.Tree.Subtrees

/-!
# Result variables are the variables in scope

A query that asks, constructs or selects everything has the variables in scope of its pattern for
its result variables, each of them once. `Group.InScope` says which variables these are, given the
result variables of the sub-queries in the pattern. `Group.Hides` says of the single places of a tree
that a variable is at none that counts, down into the sub-queries. Main statement:
`QueryUnit.listsScope_of_parse`.
-/
namespace SparqlMetrics

/-! ## Scopes -/

/-- Whether an element brings a variable into scope. -/
inductive Element.Binds (v : Text) : Element → Prop
  | subject {t : Triple} : t.subject.node = .var v → Binds v (.triple t)
  | predicate {t : Triple} : t.predicate.node = .var v → Binds v (.triple t)
  | object {t : Triple} : t.object.node = .var v → Binds v (.triple t)
  | source {subject object : Term} {p : Path} {span : Span} :
      subject.node = .var v → Binds v (.path subject p object span)
  | destination {subject object : Term} {p : Path} {span : Span} :
      object.node = .var v → Binds v (.path subject p object span)
  | target {value : Expression} {target : Term} {span : Span} :
      target.node = .var v → Binds v (.bind value target span)
  | result {query : Query} {span : Span} :
      v ∈ query.resultVariables → Binds v (.subquery (some query) span)

/-- Whether a variable is in scope of a group. -/
inductive Group.InScope (v : Text) : Group → Prop
  | element {g : Group} {e : Element} : e ∈ g.elements → e.Binds v → InScope v g
  | column {g : Group} {data : InlineData} :
      g.data = some data → v ∈ data.columns → InScope v g
  | graph {g : Group} {name : Term} :
      g.kind = .graph (some name) → name.node = .var v → InScope v g
  | child {g child : Group} :
      child ∈ g.children → child.kind ≠ .minus → InScope v child → InScope v g

section Bound

variable {v : Text}

theorem Term.mem_variables {t : Term} : v ∈ t.variables ↔ t.node = .var v := by
  obtain ⟨node, span⟩ := t
  cases node <;> simp [Term.variables, Node.varName?, eq_comm]

theorem Element.mem_boundVariables {e : Element} : v ∈ e.boundVariables ↔ e.Binds v := by
  constructor
  · intro h
    cases e with
    | triple t =>
        rw [Element.boundVariables, List.mem_append, List.mem_append] at h
        rcases h with (h | h) | h
        · exact .subject (Term.mem_variables.mp h)
        · exact .predicate (Term.mem_variables.mp h)
        · exact .object (Term.mem_variables.mp h)
    | path subject p object span =>
        rcases List.mem_append.mp h with h | h
        · exact .source (Term.mem_variables.mp h)
        · exact .destination (Term.mem_variables.mp h)
    | filter => cases h
    | subquery query span =>
        cases query with
        | none => cases h
        | some query => exact .result h
    | bind value target span => exact .target (Term.mem_variables.mp h)
  · intro h
    cases h with
    | subject named =>
        exact List.mem_append_left _ (List.mem_append_left _ (Term.mem_variables.mpr named))
    | predicate named =>
        exact List.mem_append_left _ (List.mem_append_right _ (Term.mem_variables.mpr named))
    | object named => exact List.mem_append_right _ (Term.mem_variables.mpr named)
    | source named => exact List.mem_append_left _ (Term.mem_variables.mpr named)
    | destination named => exact List.mem_append_right _ (Term.mem_variables.mpr named)
    | target named => exact Term.mem_variables.mpr named
    | result listed => exact listed

theorem mem_columnsOf {data : Option InlineData} :
    v ∈ columnsOf data ↔ ∃ d, data = some d ∧ v ∈ d.columns := by
  cases data <;> simp [columnsOf]

theorem GroupKind.mem_boundVariables {kind : GroupKind} :
    v ∈ kind.boundVariables ↔ ∃ name : Term, kind = .graph (some name) ∧ name.node = .var v := by
  rcases kind with _ | _ | _ | _ | name | _ <;> try simp [GroupKind.boundVariables]
  cases name <;> simp [Term.mem_variables]

theorem Group.boundByChildren_cons {child : Group} (rest : List Group)
    (counts : child.kind ≠ .minus) :
    Group.boundByChildren (child :: rest) = child.boundVariables ++ Group.boundByChildren rest := by
  obtain ⟨kind, elements, children, data, span⟩ := child
  cases kind with
  | minus => exact absurd rfl counts
  | _ => rfl

theorem Group.boundByChildren_cons_minus {child : Group} (rest : List Group)
    (minus : child.kind = .minus) :
    Group.boundByChildren (child :: rest) = Group.boundByChildren rest := by
  obtain ⟨kind, elements, children, data, span⟩ := child
  obtain rfl : kind = .minus := minus
  rfl

theorem Group.mem_boundByChildren {children : List Group} : v ∈ Group.boundByChildren children ↔
    ∃ child ∈ children, child.kind ≠ .minus ∧ v ∈ child.boundVariables := by
  induction children with
  | nil => simp [Group.boundByChildren]
  | cons child rest ih =>
      by_cases minus : child.kind = .minus
      · rw [Group.boundByChildren_cons_minus rest minus, ih]
        simp [minus]
      · rw [Group.boundByChildren_cons rest minus, List.mem_append, ih]
        simp [minus]

theorem Group.mem_boundVariables_iff {g : Group} : v ∈ g.boundVariables ↔
    (∃ e ∈ g.elements, e.Binds v) ∨ (∃ d, g.data = some d ∧ v ∈ d.columns) ∨
      (∃ name : Term, g.kind = .graph (some name) ∧ name.node = .var v) ∨
      ∃ child ∈ g.children, child.kind ≠ .minus ∧ v ∈ child.boundVariables := by
  obtain ⟨kind, elements, children, data, span⟩ := g
  simp only [Group.boundVariables, List.mem_append, List.mem_flatMap, Element.mem_boundVariables,
    mem_columnsOf, GroupKind.mem_boundVariables, Group.mem_boundByChildren, or_assoc]

theorem Group.mem_of_inScope {g : Group} (h : g.InScope v) : v ∈ g.boundVariables := by
  rw [Group.mem_boundVariables_iff]
  induction h with
  | element member binds => exact .inl ⟨_, member, binds⟩
  | column found column => exact .inr (.inl ⟨_, found, column⟩)
  | graph kind named => exact .inr (.inr (.inl ⟨_, kind, named⟩))
  | child member counts _ ih =>
      exact .inr (.inr (.inr ⟨_, member, counts, Group.mem_boundVariables_iff.mpr ih⟩))

theorem Group.inScope_of_mem (g : Group) (h : v ∈ g.boundVariables) : g.InScope v := by
  rcases Group.mem_boundVariables_iff.mp h with ⟨e, member, binds⟩ | ⟨d, found, column⟩ |
    ⟨name, graph, named⟩ | ⟨child, member, counts, bound⟩
  · exact .element member binds
  · exact .column found column
  · exact .graph graph named
  · exact .child member counts (Group.inScope_of_mem child bound)
termination_by sizeOf g
decreasing_by
  obtain ⟨kind, elements, children, data, span⟩ := g
  have smaller : sizeOf child < sizeOf children := List.sizeOf_lt_of_mem member
  simp only [Group.mk.sizeOf_spec]
  omega

/-- The variables that a group binds are those in its scope. -/
theorem Group.mem_boundVariables {g : Group} : v ∈ g.boundVariables ↔ g.InScope v :=
  ⟨Group.inScope_of_mem g, Group.mem_of_inScope⟩

end Bound

/-! ## Hidden variables -/

mutual

/-- Whether a variable is at none of the places of an element that count: it may be in a condition,
in the value of a binding, and in a sub-query that does not select it. -/
def Element.Hides (v : Text) : Element → Prop
  | .triple t => t.subject.node ≠ .var v ∧ t.predicate.node ≠ .var v ∧ t.object.node ≠ .var v
  | .path subject _ object _ => subject.node ≠ .var v ∧ object.node ≠ .var v
  | .filter _ _ => True
  | .subquery none _ => True
  | .subquery (some query) _ => query.Hides v
  | .bind _ target _ => target.node ≠ .var v

def Element.HidesAll (v : Text) : List Element → Prop
  | [] => True
  | e :: rest => e.Hides v ∧ Element.HidesAll v rest

/-- Whether a variable is at none of the places of a group that count: it may be the endpoint of a
service and within a MINUS side. -/
def Group.Hides (v : Text) : Group → Prop
  | ⟨kind, elements, children, data, _⟩ =>
    Element.HidesAll v elements ∧ (∀ d, data = some d → v ∉ d.columns) ∧
      (∀ name : Term, kind = .graph (some name) → name.node ≠ .var v) ∧ Group.HidesAll v children

def Group.HidesAll (v : Text) : List Group → Prop
  | [] => True
  | ⟨.minus, _, _, _, _⟩ :: rest => Group.HidesAll v rest
  | child :: rest => child.Hides v ∧ Group.HidesAll v rest

/-- Whether a selection does not select a variable: by its names, or by its pattern and its table
where it selects everything. -/
def Query.Hides (v : Text) : Query → Prop
  | ⟨.select _ false items, _, _, _, _, _, _, _, _, _, _⟩ => ∀ item ∈ items, item.name ≠ v
  | ⟨_, _, _, root, _, _, _, _, _, values, _⟩ =>
    root.Hides v ∧ ∀ d, values = some d → v ∉ d.columns

end

section Hidden

variable {v : Text}

theorem Group.hidesAll_cons {child : Group} (rest : List Group) :
    Group.HidesAll v (child :: rest) ↔
      (child.kind ≠ .minus → child.Hides v) ∧ Group.HidesAll v rest := by
  obtain ⟨kind, elements, children, data, span⟩ := child
  cases kind <;> simp [Group.HidesAll]

/-- The result variables that a selection within a group has by its form. -/
theorem Query.IsSubSelect.mem_resultVariables {q : Query} (h : q.IsSubSelect) :
    (∃ modifier items, q.form = .select modifier false items ∧
      (v ∈ q.resultVariables ↔ ∃ item ∈ items, item.name = v)) ∨
    ∃ modifier items, q.form = .select modifier true items ∧
      (v ∈ q.resultVariables ↔ v ∈ q.root.boundVariables ∨ v ∈ columnsOf q.values) := by
  obtain ⟨⟨modifier, everything, items, form⟩, -, names⟩ := h
  rw [names, form]
  cases everything with
  | false =>
      refine .inl ⟨modifier, items, rfl, ?_⟩
      rw [Form.resultVariables, Text.mem_distinct, List.mem_map]
  | true =>
      refine .inr ⟨modifier, items, rfl, ?_⟩
      exact Text.mem_distinct.trans List.mem_append

mutual

theorem Element.hides_iff :
    ∀ e : Element, e.Everywhere legalChecks → (e.Hides v ↔ v ∉ e.boundVariables)
  | .triple _, _ => by simp [Element.Hides, Element.boundVariables, Term.mem_variables]
  | .path _ _ _ _, _ => by simp [Element.Hides, Element.boundVariables, Term.mem_variables]
  | .filter _ _, _ => by simp [Element.Hides, Element.boundVariables]
  | .subquery none _, _ => by simp [Element.Hides, Element.boundVariables]
  | .subquery (some query) _, h => by
    obtain ⟨q, same, sub⟩ := h.1.2
    obtain rfl := Option.some.inj same
    exact Query.hides_iff query h.2 sub
  | .bind _ _ _, _ => by simp [Element.Hides, Element.boundVariables, Term.mem_variables]

theorem Element.hidesAll_iff : ∀ es : List Element, Element.EverywhereAll legalChecks es →
    (Element.HidesAll v es ↔ v ∉ es.flatMap Element.boundVariables)
  | [], _ => by simp [Element.HidesAll]
  | e :: rest, h => by
    rw [Element.HidesAll, Element.hides_iff e h.1, Element.hidesAll_iff rest h.2, List.flatMap_cons,
      List.mem_append, not_or]

theorem Group.hides_iff :
    ∀ g : Group, g.Everywhere legalChecks → (g.Hides v ↔ v ∉ g.boundVariables)
  | ⟨kind, elements, children, data, _⟩, h => by
    simp only [Group.Hides, Group.boundVariables, Element.hidesAll_iff elements h.2.2.1,
      Group.hidesAll_iff children h.2.2.2.1, List.mem_append, not_or, and_assoc, mem_columnsOf,
      GroupKind.mem_boundVariables, not_exists, not_and]

theorem Group.hidesAll_iff : ∀ gs : List Group, Group.EverywhereAll legalChecks gs →
    (Group.HidesAll v gs ↔ v ∉ Group.boundByChildren gs)
  | [], _ => by simp [Group.HidesAll, Group.boundByChildren]
  | g :: rest, h => by
    rw [Group.hidesAll_cons, Group.hidesAll_iff rest h.2]
    by_cases minus : g.kind = .minus
    · simp [Group.boundByChildren_cons_minus rest minus, minus]
    · simp [Group.boundByChildren_cons rest minus, minus, Group.hides_iff g h.1]

theorem Query.hides_iff : ∀ q : Query, q.Everywhere legalChecks → q.IsSubSelect →
    (q.Hides v ↔ v ∉ q.resultVariables)
  | ⟨form, _, _, root, _, _, _, _, _, values, _⟩, h, sub => by
    have pattern : root.Hides v ↔ v ∉ root.boundVariables := Group.hides_iff root h.2.2.1
    rcases sub.mem_resultVariables with ⟨modifier, items, rfl, selected⟩ |
      ⟨modifier, items, rfl, selected⟩
    · rw [selected]
      simp [Query.Hides]
    · rw [selected]
      simp [Query.Hides, pattern, mem_columnsOf]

end

end Hidden

/-! ## Result variables -/

/-- Whether a form takes its result variables from the scope of its pattern. -/
def Form.takesScope : Form → Bool
  | .select _ everything _ => everything
  | .describe _ _ => false
  | _ => true

/-- Whether the result variables of a query are those in scope of its pattern. -/
structure Query.ListsScope (q : Query) : Prop where
  nodup : q.resultVariables.Nodup
  mem_iff : ∀ v, v ∈ q.resultVariables ↔ q.root.InScope v
  not_mem_iff : ∀ v, v ∉ q.resultVariables ↔ q.root.Hides v

/-- The check that a sub-query without a table behind it that selects everything lists its scope. -/
def scopeChecks : NodeChecks where
  element e := ∀ q span, e = .subquery (some q) span → q.form.takesScope = true → q.values = none →
    q.ListsScope

/-- A query lists its scope when no table has a part in its result variables. -/
theorem Query.listsScope {q : Query} (legal : q.Everywhere legalChecks)
    (takes : q.form.takesScope = true)
    (names : q.resultVariables = q.form.resultVariables q.root none) : q.ListsScope := by
  have scope : q.form.resultVariables q.root none = Text.distinct q.root.boundVariables := by
    rw [← List.append_nil q.root.boundVariables]
    cases form : q.form with
    | select modifier everything items =>
        rw [form] at takes
        obtain rfl : everything = true := takes
        rfl
    | describe everything targets =>
        rw [form] at takes
        cases takes
    | _ => rfl
  have hides (v : Text) := Group.hides_iff (v := v) q.root (Query.everywhere_iff.mp legal).2.2.1
  rw [scope] at names
  exact {
    nodup := names ▸ Text.nodup_distinct _
    mem_iff := fun v => by rw [names, Text.mem_distinct, Group.mem_boundVariables]
    not_mem_iff := fun v => by rw [names, Text.mem_distinct, hides] }

theorem subtrees_implies_scopeChecks : legalChecks.subtrees.Implies scopeChecks where
  term _ _ := trivial
  data _ _ := trivial
  expression _ _ := trivial
  group _ _ := trivial
  query _ _ := trivial
  element e h q span same takes alone := by
    subst same
    obtain ⟨_, found, _, _, names⟩ := h.1.2
    obtain rfl := Option.some.inj found
    rw [alone] at names
    exact Query.listsScope h.2 takes names

namespace QueryUnit

/-- The result variables of a query that is read, if it asks, constructs or selects everything, are
the variables in scope of its pattern, each of them once, and the same holds of the sub-queries at
every depth. A variable that occurs in conditions, values, patterns of tests, endpoints of services,
MINUS sides and sub-queries that do not select it, and nowhere else, is none of them. -/
theorem listsScope_of_parse {s : Text} {unit : QueryUnit} (h : parse s = .ok unit) :
    (unit.query.form.takesScope = true → unit.query.ListsScope) ∧
      unit.query.Everywhere scopeChecks := by
  have legal := legal_of_parse h
  exact ⟨fun takes => Query.listsScope legal.query takes legal.resultVariables,
    Query.everywhere_mono subtrees_implies_scopeChecks _ (Query.everywhere_subtrees _ legal.query)⟩

/-- A text with a variable at each of the places that bring one into scope, `?a` to `?j`, and one at
each of the places that do not, `?z1` to `?z7`. -/
def scopedText : Text :=
  utf8 ("SELECT * \x7b ?a ?b ?c . ?d <u:p>* ?e . FILTER (?z1 > 1) BIND (?z2 + 1 AS ?f) " ++
    "VALUES ?g \x7b 1 \x7d GRAPH ?i \x7b ?h <u:p> 1 \x7d SERVICE ?z3 \x7b ?a <u:p> 1 \x7d " ++
    "MINUS \x7b ?z4 <u:p> 1 \x7d FILTER EXISTS \x7b ?z5 <u:p> 1 \x7d " ++
    "\x7b SELECT ?j \x7b ?j <u:p> ?z6 \x7d \x7d " ++
    "\x7b SELECT * \x7b ?a <u:p> ?b MINUS \x7b ?z7 <u:p> 1 \x7d \x7d \x7d \x7d")

theorem listsScope_scopedText : ∃ unit, parse scopedText = .ok unit ∧
    unit.query.form.takesScope = true ∧
    unit.query.resultVariables = ["a", "b", "c", "d", "e", "f", "g", "h", "i", "j"].map utf8 ∧
    (unit.query.ListsScope ∧ unit.query.Everywhere scopeChecks) ∧
    unit.query.root.InScope (utf8 "j") ∧
    ∀ v ∈ ["z1", "z2", "z3", "z4", "z5", "z6", "z7"], unit.query.root.Hides (utf8 v) := by
  obtain ⟨unit, read⟩ := exists_of_isOk (s := scopedText) (by decide +kernel)
  have found : (parse scopedText).toOption.map
      (fun u => (u.query.form.takesScope, u.query.resultVariables)) =
      some (true, ["a", "b", "c", "d", "e", "f", "g", "h", "i", "j"].map utf8) := by decide +kernel
  rw [read] at found
  obtain ⟨takes, names⟩ := Prod.mk.inj (Option.some.inj found)
  obtain ⟨lists, nested⟩ := listsScope_of_parse read
  have scope := lists takes
  refine ⟨unit, read, takes, names, ⟨scope, nested⟩, (scope.mem_iff _).mp ?_, fun v member => ?_⟩
  · rw [names]
    decide
  · rw [← scope.not_mem_iff, names]
    revert v
    decide

end QueryUnit

end SparqlMetrics
