import SparqlMetrics.Metric.Basic
import SparqlMetrics.Proofs.Tree.Rewriting

/-!
# Trees without spans

Neither the written form of a tree nor what is counted in it depends on its spans: a tree without
them is written and counted as the tree itself. So queries that are equal up to spans and have the
same declarations have one written form and the same metrics. Main statements:
`QueryUnit.write_congr`, `QueryUnit.measure_congr`.
-/
namespace SparqlMetrics

@[simp] theorem leaf_withoutSpans (e : Element) : Rewriting.withoutSpans.leaf e = e := rfl

@[simp] theorem span_withoutSpans (span : Span) : Rewriting.withoutSpans.span span = {} := rfl

section Parts
variable (ns : Namespaces) (indent : Nat)

@[simp] theorem Term.node_withoutSpans (t : Term) : (t.rewrite .withoutSpans).node = t.node :=
  Node.rewrite_of_iri rfl t.node

@[simp] theorem Term.write_withoutSpans (t : Term) :
    (t.rewrite .withoutSpans).write ns = t.write ns := by
  rw [write, node_withoutSpans, write]

@[simp] theorem Term.writePredicate_withoutSpans (t : Term) :
    (t.rewrite .withoutSpans).writePredicate ns = t.writePredicate ns := by
  rw [writePredicate, node_withoutSpans, write_withoutSpans, writePredicate]

@[simp] theorem Triple.write_withoutSpans (t : Triple) :
    (t.rewrite .withoutSpans).write ns = t.write ns := by
  simp [Triple.rewrite, write]

/-- A path without spans has its joins and its repetitions where the path has them. -/
theorem Path.shape_withoutSpans (p : Path) :
    (p.rewrite .withoutSpans).isPrimary = p.isPrimary ∧
      (p.rewrite .withoutSpans).isElement = p.isElement ∧
      (p.rewrite .withoutSpans).isJoin = p.isJoin ∧
      ∀ how, (p.rewrite .withoutSpans).breaksLeft how = p.breaksLeft how := by
  cases p with
  | join how left right => cases how <;> exact ⟨rfl, rfl, rfl, fun _ => rfl⟩
  | _ => exact ⟨rfl, rfl, rfl, fun _ => rfl⟩

@[simp] theorem Path.write_withoutSpans (p : Path) :
    (p.rewrite .withoutSpans).write ns = p.write ns := by
  induction p with
  | step predicate => simp [Path.rewrite, write]
  | inverse inner ih =>
      obtain ⟨_, isElement, _, _⟩ := inner.shape_withoutSpans
      rw [Path.rewrite, write, write, ih, isElement]
  | repeated times inner ih =>
      obtain ⟨isPrimary, _, _, _⟩ := inner.shape_withoutSpans
      rw [Path.rewrite, write, write, ih, isPrimary]
  | negated inner ih =>
      obtain ⟨_, _, isJoin, _⟩ := inner.shape_withoutSpans
      rw [Path.rewrite, write, write, ih, isJoin]
  | join how left right ihLeft ihRight =>
      obtain ⟨_, _, _, breaksLeft⟩ := left.shape_withoutSpans
      obtain ⟨_, _, isJoin, _⟩ := right.shape_withoutSpans
      rw [Path.rewrite, write, write, ihLeft, ihRight, breaksLeft, isJoin]

@[simp] theorem Callee.write_withoutSpans (callee : Callee) :
    (callee.rewrite .withoutSpans).write ns = callee.write ns := by
  cases callee <;> simp [Callee.rewrite, write]

@[simp] theorem DatasetClause.write_withoutSpans (clause : DatasetClause) :
    (clause.rewrite .withoutSpans).write ns = clause.write ns := rfl

theorem cellText_withoutSpans (cell : Option Term) :
    cellText ns (cell.map (Term.rewrite .withoutSpans)) = cellText ns cell := by
  cases cell <;> simp [cellText]

@[simp] theorem InlineData.write_withoutSpans (data : InlineData) :
    (data.rewrite .withoutSpans).write ns indent = data.write ns indent := by
  simp [InlineData.rewrite, write, List.flatMap_map, List.map_map, Function.comp_def,
    cellText_withoutSpans]

@[simp] theorem writeData_withoutSpans (data : Option InlineData) :
    writeData ns indent (data.map (InlineData.rewrite .withoutSpans)) =
      writeData ns indent data := by
  cases data <;> simp [writeData]

@[simp] theorem GroupKind.headingLine_withoutSpans (kind : GroupKind) :
    (kind.rewrite .withoutSpans).headingLine ns indent = kind.headingLine ns indent := by
  have heading : (kind.rewrite .withoutSpans).heading ns = kind.heading ns := by
    rcases kind with _ | _ | _ | _ | (_ | name) | ⟨_ | endpoint, silent⟩ <;>
      simp [GroupKind.rewrite, GroupKind.heading]
  rw [headingLine, heading, headingLine]

@[simp] theorem GroupKind.isUnion_withoutSpans (kind : GroupKind) :
    (kind.rewrite .withoutSpans).isUnion = kind.isUnion := by
  cases kind <;> rfl

@[simp] theorem GroupKind.isPlain_withoutSpans (kind : GroupKind) :
    (kind.rewrite .withoutSpans).isPlain = kind.isPlain := by
  cases kind <;> rfl

@[simp] theorem Group.kind_withoutSpans (g : Group) :
    (g.rewrite .withoutSpans).kind = g.kind.rewrite .withoutSpans := by
  cases g
  rfl

/-- An expression without spans needs brackets where the expression does. -/
theorem Expression.shape_withoutSpans (e : Expression) :
    (e.rewrite .withoutSpans).breaksUnary = e.breaksUnary ∧
      (∀ parent right, (e.rewrite .withoutSpans).breaksBinary parent right =
        e.breaksBinary parent right) ∧
      ∀ allowVariable, (e.rewrite .withoutSpans).standsAlone allowVariable =
        e.standsAlone allowVariable := by
  cases e with
  | term t span => simp [breaksUnary, breaksBinary, standsAlone]
  | «exists» negated pattern span =>
      cases pattern <;> exact ⟨rfl, fun _ _ => rfl, fun _ => rfl⟩
  | _ => exact ⟨rfl, fun _ _ => rfl, fun _ => rfl⟩

@[simp] theorem Expression.breaksUnary_withoutSpans (e : Expression) :
    (e.rewrite .withoutSpans).breaksUnary = e.breaksUnary := e.shape_withoutSpans.1

@[simp] theorem Expression.breaksBinary_withoutSpans (e : Expression) (parent : Nat)
    (right : Bool) : (e.rewrite .withoutSpans).breaksBinary parent right =
      e.breaksBinary parent right := e.shape_withoutSpans.2.1 parent right

@[simp] theorem Expression.standsAlone_withoutSpans (e : Expression) (allowVariable : Bool) :
    (e.rewrite .withoutSpans).standsAlone allowVariable = e.standsAlone allowVariable :=
  e.shape_withoutSpans.2.2 allowVariable

theorem Element.writeList_cons_cons (alone : Bool) (e next : Element) (rest : List Element) :
    Element.writeList ns indent alone (e :: next :: rest) =
      e.write ns indent ++ Element.writeList ns indent false (next :: rest) := by
  rw [Element.writeList]
  · nofun
  · nofun

end Parts

section Trees
variable (ns : Namespaces)

mutual

theorem Expression.write_withoutSpans : ∀ (e : Expression) (indent : Nat),
    (e.rewrite .withoutSpans).write ns indent = e.write ns indent
  | .term t _, indent => by simp [Expression.write]
  | .unary op [] _, indent => rfl
  | .unary op (operand :: rest) _, indent => by
    simp [Expression.write, Expression.write_withoutSpans operand indent]
  | .binary op [] _, indent => rfl
  | .binary op [only] _, indent => by
    simpa [Expression.write] using Expression.writeList_withoutSpans [only] indent
  | .binary op [left, right] _, indent => by
    simp [Expression.write, Expression.write_withoutSpans left indent,
      Expression.write_withoutSpans right indent]
  | .binary op (first :: second :: third :: rest) _, indent =>
    Expression.writeList_withoutSpans (first :: second :: third :: rest) indent
  | .call callee distinct args _, indent => by
    simp [Expression.write, Expression.writeList_withoutSpans args indent]
  | .aggregate name distinct star args separator _, indent => by
    simp [Expression.write, Expression.writeList_withoutSpans args indent]
  | .member negated [] _, indent => rfl
  | .member negated (left :: items) _, indent => by
    simp [Expression.write, Expression.write_withoutSpans left indent,
      Expression.writeList_withoutSpans items indent]
  | .exists negated none _, indent => rfl
  | .exists negated (some pattern) _, indent => by
    simp [Expression.write, Group.writeContent_withoutSpans pattern (indent + 2)]

theorem Expression.writeList_withoutSpans : ∀ (es : List Expression) (indent : Nat),
    Expression.writeList ns indent (Expression.rewriteAll .withoutSpans es) =
      Expression.writeList ns indent es
  | [], indent => rfl
  | e :: rest, indent => by
    simp [Expression.writeList, Expression.write_withoutSpans e indent,
      Expression.writeMore_withoutSpans rest indent]

theorem Expression.writeMore_withoutSpans : ∀ (es : List Expression) (indent : Nat),
    Expression.writeMore ns indent (Expression.rewriteAll .withoutSpans es) =
      Expression.writeMore ns indent es
  | [], indent => rfl
  | e :: rest, indent => by
    simp [Expression.writeMore, Expression.write_withoutSpans e indent,
      Expression.writeMore_withoutSpans rest indent]

theorem Element.write_withoutSpans : ∀ (e : Element) (indent : Nat),
    (e.rewrite .withoutSpans).write ns indent = e.write ns indent
  | .triple t, indent => congrArg (fun s => Passage.part (line indent s)) (t.write_withoutSpans ns)
  | .path subject p object _, indent => by
    show Element.write ns indent (.path _ _ _ _) = _
    simp [Element.write]
  | .filter condition _, indent => by
    simp [Element.write, Expression.write_withoutSpans condition indent]
  | .subquery none _, indent => rfl
  | .subquery (some query) _, indent => by
    simp [Element.write, Query.write_withoutSpans query (indent + 2)]
  | .bind value target _, indent => by
    simp [Element.write, Expression.write_withoutSpans value indent]

theorem Element.writeList_withoutSpans : ∀ (es : List Element) (indent : Nat) (alone : Bool),
    Element.writeList ns indent alone (Element.rewriteAll .withoutSpans es) =
      Element.writeList ns indent alone es
  | [], indent, alone => rfl
  | [.subquery none _], indent, alone => rfl
  | [.subquery (some query) _], indent, alone => by
    simp [Element.writeList, Query.write_withoutSpans query]
  | [.triple t], indent, alone =>
    congrArg (· ++ Passage.empty) (Element.write_withoutSpans (.triple t) indent)
  | [.path subject p object span], indent, alone =>
    congrArg (· ++ Passage.empty) (Element.write_withoutSpans (.path subject p object span) indent)
  | [.filter condition span], indent, alone =>
    congrArg (· ++ Passage.empty) (Element.write_withoutSpans (.filter condition span) indent)
  | [.bind value target span], indent, alone =>
    congrArg (· ++ Passage.empty) (Element.write_withoutSpans (.bind value target span) indent)
  | e :: next :: rest, indent, alone => by
    have behind := Element.writeList_withoutSpans (next :: rest) indent false
    rw [Element.rewriteAll] at behind
    rw [Element.rewriteAll, Element.rewriteAll, Element.writeList_cons_cons,
      Element.writeList_cons_cons, Element.write_withoutSpans e indent, behind]

theorem Group.writeContent_withoutSpans : ∀ (g : Group) (indent : Nat),
    (g.rewrite .withoutSpans).writeContent ns indent = g.writeContent ns indent
  | ⟨kind, elements, children, data, _⟩, indent => by
    have sameEmptiness : (Group.rewriteAll .withoutSpans children).isEmpty = children.isEmpty := by
      cases children <;> rfl
    simp [Group.rewrite, Group.writeContent, Element.writeList_withoutSpans elements indent,
      Group.writeChildren_withoutSpans children indent, sameEmptiness]

theorem Group.writeAlternatives_withoutSpans : ∀ (g : Group) (indent : Nat),
    (g.rewrite .withoutSpans).writeAlternatives ns indent = g.writeAlternatives ns indent
  | ⟨_, _, children, _, _⟩, indent => Group.writeUnion_withoutSpans children indent true

theorem Group.writeChildren_withoutSpans : ∀ (gs : List Group) (indent : Nat),
    Group.writeChildren ns indent (Group.rewriteAll .withoutSpans gs) =
      Group.writeChildren ns indent gs
  | [], indent => rfl
  | g :: rest, indent => by
    simp [Group.rewriteAll, Group.writeChildren, Group.writeAlternatives_withoutSpans g indent,
      Group.writeContent_withoutSpans g (indent + 2), Group.writeChildren_withoutSpans rest indent]

theorem Group.writeUnion_withoutSpans : ∀ (gs : List Group) (indent : Nat) (first : Bool),
    Group.writeUnion ns indent first (Group.rewriteAll .withoutSpans gs) =
      Group.writeUnion ns indent first gs
  | [], indent, first => rfl
  | g :: rest, indent, first => by
    simp [Group.rewriteAll, Group.writeUnion, Group.writeAlternatives_withoutSpans g (indent + 2),
      Group.writeContent_withoutSpans g, Group.writeUnion_withoutSpans rest indent false]

theorem Projection.writeList_withoutSpans : ∀ ps : List Projection,
    Projection.writeList ns (Projection.rewriteAll .withoutSpans ps) = Projection.writeList ns ps
  | [] => rfl
  | ⟨name, none, _⟩ :: rest => by
    simp [Projection.rewriteAll, Projection.rewrite, Projection.writeList,
      Projection.writeList_withoutSpans rest]
  | ⟨name, some value, _⟩ :: rest => by
    simp [Projection.rewriteAll, Projection.rewrite, Projection.writeList,
      Expression.write_withoutSpans value 0, Projection.writeList_withoutSpans rest]

theorem Form.write_withoutSpans : ∀ (form : Form) (indent : Nat),
    (form.rewrite .withoutSpans).write ns indent = form.write ns indent
  | .select modifier true items, indent => rfl
  | .select modifier false items, indent => by
    simp [Form.rewrite, Form.write, Projection.writeList_withoutSpans items]
  | .ask, indent => rfl
  | .construct template, indent => by simp [Form.rewrite, Form.write, List.flatMap_map]
  | .describe everything targets, indent => by simp [Form.rewrite, Form.write, List.flatMap_map]

theorem GroupCondition.writeList_withoutSpans : ∀ (cs : List GroupCondition) (indent : Nat),
    GroupCondition.writeList ns indent (GroupCondition.rewriteAll .withoutSpans cs) =
      GroupCondition.writeList ns indent cs
  | [], indent => rfl
  | ⟨value, none⟩ :: rest, indent => by
    simp [GroupCondition.rewriteAll, GroupCondition.writeList,
      Expression.write_withoutSpans value indent, GroupCondition.writeList_withoutSpans rest indent]
  | ⟨value, some name⟩ :: rest, indent => by
    simp [GroupCondition.rewriteAll, GroupCondition.writeList,
      Expression.write_withoutSpans value indent, GroupCondition.writeList_withoutSpans rest indent]

theorem Expression.writeConstraints_withoutSpans : ∀ (es : List Expression) (indent : Nat),
    Expression.writeConstraints ns indent (Expression.rewriteAll .withoutSpans es) =
      Expression.writeConstraints ns indent es
  | [], indent => rfl
  | e :: rest, indent => by
    simp [Expression.writeConstraints, Expression.write_withoutSpans e indent,
      Expression.writeConstraints_withoutSpans rest indent]

theorem OrderCondition.writeList_withoutSpans : ∀ (cs : List OrderCondition) (indent : Nat),
    OrderCondition.writeList ns indent (OrderCondition.rewriteAll .withoutSpans cs) =
      OrderCondition.writeList ns indent cs
  | [], indent => rfl
  | ⟨value, direction⟩ :: rest, indent => by
    simp [OrderCondition.rewriteAll, OrderCondition.writeList,
      Expression.write_withoutSpans value indent, OrderCondition.writeList_withoutSpans rest indent]

/-- A query without spans is written as the query. -/
theorem Query.write_withoutSpans : ∀ (q : Query) (indent : Nat),
    (q.rewrite .withoutSpans).write ns indent = q.write ns indent
  | ⟨form, names, dataset, root, groupBy, having, orderBy, limit, offset, values, span⟩,
      indent => by
    have describes : (form.rewrite .withoutSpans).isDescribe = form.isDescribe := by
      cases form <;> rfl
    have empty : (root.rewrite .withoutSpans).isEmpty = root.isEmpty := by
      obtain ⟨kind, elements, children, data, span⟩ := root
      cases elements <;> cases children <;> cases data <;> rfl
    have noGroup : (GroupCondition.rewriteAll .withoutSpans groupBy).isEmpty = groupBy.isEmpty := by
      rw [GroupCondition.rewriteAll_eq_map, List.isEmpty_map]
    have noHaving : (Expression.rewriteAll .withoutSpans having).isEmpty = having.isEmpty := by
      rw [Expression.rewriteAll_eq_map, List.isEmpty_map]
    have noOrder : (OrderCondition.rewriteAll .withoutSpans orderBy).isEmpty = orderBy.isEmpty := by
      rw [OrderCondition.rewriteAll_eq_map, List.isEmpty_map]
    simp [Query.rewrite, Query.write, List.flatMap_map, Form.write_withoutSpans form indent,
      Group.writeContent_withoutSpans root, GroupCondition.writeList_withoutSpans groupBy indent,
      Expression.writeConstraints_withoutSpans having indent,
      OrderCondition.writeList_withoutSpans orderBy indent, describes, empty, noGroup, noHaving,
      noOrder]

end

end Trees

section Twice

@[simp] theorem Term.withoutSpans_idem (t : Term) :
    (t.rewrite .withoutSpans).rewrite .withoutSpans = t.rewrite .withoutSpans := by
  rw [rewrite, node_withoutSpans]
  rfl

@[simp] theorem Path.withoutSpans_idem (p : Path) :
    (p.rewrite .withoutSpans).rewrite .withoutSpans = p.rewrite .withoutSpans := by
  induction p with
  | step predicate => simp [rewrite]
  | inverse inner ih => rw [rewrite, rewrite, ih]
  | repeated times inner ih => rw [rewrite, rewrite, ih]
  | negated inner ih => rw [rewrite, rewrite, ih]
  | join how left right ihLeft ihRight => rw [rewrite, rewrite, ihLeft, ihRight]

@[simp] theorem Triple.withoutSpans_idem (t : Triple) :
    (t.rewrite .withoutSpans).rewrite .withoutSpans = t.rewrite .withoutSpans := by
  simp [rewrite]

@[simp] theorem InlineData.withoutSpans_idem (data : InlineData) :
    (data.rewrite .withoutSpans).rewrite .withoutSpans = data.rewrite .withoutSpans := by
  simp [rewrite, Function.comp_def]

@[simp] theorem Callee.withoutSpans_idem (callee : Callee) :
    (callee.rewrite .withoutSpans).rewrite .withoutSpans = callee.rewrite .withoutSpans := by
  cases callee <;> simp [rewrite]

@[simp] theorem GroupKind.withoutSpans_idem (kind : GroupKind) :
    (kind.rewrite .withoutSpans).rewrite .withoutSpans = kind.rewrite .withoutSpans := by
  rcases kind with _ | _ | _ | _ | name | ⟨endpoint, silent⟩ <;> simp [rewrite, Function.comp_def]

mutual

theorem Expression.withoutSpans_idem : ∀ e : Expression,
    (e.rewrite .withoutSpans).rewrite .withoutSpans = e.rewrite .withoutSpans
  | .term t _ => by simp
  | .unary op args _ => by simp [Expression.withoutSpansAll_idem args]
  | .binary op args _ => by simp [Expression.withoutSpansAll_idem args]
  | .call callee distinct args _ => by simp [Expression.withoutSpansAll_idem args]
  | .aggregate name distinct star args separator _ => by simp [Expression.withoutSpansAll_idem args]
  | .member negated args _ => by simp [Expression.withoutSpansAll_idem args]
  | .exists negated none _ => rfl
  | .exists negated (some pattern) _ => by simp [Group.withoutSpans_idem pattern]

theorem Expression.withoutSpansAll_idem : ∀ es : List Expression,
    Expression.rewriteAll .withoutSpans (Expression.rewriteAll .withoutSpans es) =
      Expression.rewriteAll .withoutSpans es
  | [] => rfl
  | e :: rest => by simp [Expression.withoutSpans_idem e, Expression.withoutSpansAll_idem rest]

theorem Element.withoutSpans_idem : ∀ e : Element,
    (e.rewrite .withoutSpans).rewrite .withoutSpans = e.rewrite .withoutSpans
  | .triple t => by simp
  | .path subject p object _ => by simp
  | .filter condition _ => by simp [Expression.withoutSpans_idem condition]
  | .subquery none _ => rfl
  | .subquery (some query) _ => by simp [Query.withoutSpans_idem query]
  | .bind value target _ => by simp [Expression.withoutSpans_idem value]

theorem Element.withoutSpansAll_idem : ∀ es : List Element,
    Element.rewriteAll .withoutSpans (Element.rewriteAll .withoutSpans es) =
      Element.rewriteAll .withoutSpans es
  | [] => rfl
  | e :: rest => by simp [Element.withoutSpans_idem e, Element.withoutSpansAll_idem rest]

theorem Group.withoutSpans_idem : ∀ g : Group,
    (g.rewrite .withoutSpans).rewrite .withoutSpans = g.rewrite .withoutSpans
  | ⟨kind, elements, children, data, _⟩ => by
    simp [Group.rewrite, Element.withoutSpansAll_idem elements, Group.withoutSpansAll_idem children,
      Function.comp_def]

theorem Group.withoutSpansAll_idem : ∀ gs : List Group,
    Group.rewriteAll .withoutSpans (Group.rewriteAll .withoutSpans gs) =
      Group.rewriteAll .withoutSpans gs
  | [] => rfl
  | g :: rest => by
    simp [Group.rewriteAll, Group.withoutSpans_idem g, Group.withoutSpansAll_idem rest]

theorem Projection.withoutSpansAll_idem : ∀ ps : List Projection,
    Projection.rewriteAll .withoutSpans (Projection.rewriteAll .withoutSpans ps) =
      Projection.rewriteAll .withoutSpans ps
  | [] => rfl
  | ⟨name, none, _⟩ :: rest => by
    simp [Projection.rewriteAll, Projection.rewrite, Projection.withoutSpansAll_idem rest]
  | ⟨name, some value, _⟩ :: rest => by
    simp [Projection.rewriteAll, Projection.rewrite, Expression.withoutSpans_idem value,
      Projection.withoutSpansAll_idem rest]

theorem Form.withoutSpans_idem : ∀ form : Form,
    (form.rewrite .withoutSpans).rewrite .withoutSpans = form.rewrite .withoutSpans
  | .select modifier everything items => by
    simp [Form.rewrite, Projection.withoutSpansAll_idem items]
  | .ask => rfl
  | .construct template => by simp [Form.rewrite]
  | .describe everything targets => by simp [Form.rewrite]

theorem GroupCondition.withoutSpansAll_idem : ∀ cs : List GroupCondition,
    GroupCondition.rewriteAll .withoutSpans (GroupCondition.rewriteAll .withoutSpans cs) =
      GroupCondition.rewriteAll .withoutSpans cs
  | [] => rfl
  | ⟨value, name⟩ :: rest => by
    simp [GroupCondition.rewriteAll, Expression.withoutSpans_idem value,
      GroupCondition.withoutSpansAll_idem rest]

theorem OrderCondition.withoutSpansAll_idem : ∀ cs : List OrderCondition,
    OrderCondition.rewriteAll .withoutSpans (OrderCondition.rewriteAll .withoutSpans cs) =
      OrderCondition.rewriteAll .withoutSpans cs
  | [] => rfl
  | ⟨value, direction⟩ :: rest => by
    simp [OrderCondition.rewriteAll, Expression.withoutSpans_idem value,
      OrderCondition.withoutSpansAll_idem rest]

/-- To take the spans away twice is to take them away once. -/
theorem Query.withoutSpans_idem : ∀ q : Query,
    (q.rewrite .withoutSpans).rewrite .withoutSpans = q.rewrite .withoutSpans
  | ⟨form, _, dataset, root, groupBy, having, orderBy, _, _, values, _⟩ => by
    have same : DatasetClause.rewrite .withoutSpans = id := rfl
    simp [Query.rewrite, Form.withoutSpans_idem form, Group.withoutSpans_idem root,
      GroupCondition.withoutSpansAll_idem groupBy, Expression.withoutSpansAll_idem having,
      OrderCondition.withoutSpansAll_idem orderBy, same, Function.comp_def]

end

end Twice

section Counts

/-- A path without spans has its steps along IRIs where the path has them. -/
theorem Path.isIriStep_withoutSpans (p : Path) :
    (p.rewrite .withoutSpans).isIriStep = p.isIriStep := by
  cases p <;> simp [rewrite, isIriStep]

theorem Path.countJoin_withoutSpans (p : Path) :
    (p.rewrite .withoutSpans).countJoin = p.countJoin := by
  induction p with
  | join how left right ihLeft _ =>
      rw [rewrite, countJoin, countJoin, isIriStep_withoutSpans, isIriStep_withoutSpans, ihLeft]
  | _ => rfl

@[simp] theorem Path.countPredicates_withoutSpans (p : Path) :
    (p.rewrite .withoutSpans).countPredicates = p.countPredicates := by
  cases p with
  | step predicate => simp [rewrite, countPredicates]
  | join how left right => exact countJoin_withoutSpans (.join how left right)
  | _ => simp [rewrite, countPredicates, isIriStep_withoutSpans]

/-- All that is counted in a part of a tree. -/
structure Counts where
  triples : Nat
  filters : Nat
  resources : Bool → Nat
  modifier : CountedModifier → Nat

def Group.counts (g : Group) : Counts where
  triples := g.countTriples
  filters := g.countFilters
  resources predicates := g.countResources predicates
  modifier m := g.countModifier m

def Group.countsAll (gs : List Group) : Counts where
  triples := Group.countTriplesAll gs
  filters := Group.countFiltersAll gs
  resources predicates := Group.countResourcesAll predicates gs
  modifier m := Group.countModifierAll m gs

def Element.counts (es : List Element) : Counts where
  triples := Element.countTriples es
  filters := Element.countFilters es
  resources predicates := Element.countResources predicates es
  modifier m := Element.countModifier m es

def Query.counts (q : Query) : Counts where
  triples := q.countTriples
  filters := q.countFilters
  resources predicates := q.countResources predicates
  modifier m := q.countModifier m

theorem rowCount_withoutSpans (data : Option InlineData) :
    rowCount (data.map (InlineData.rewrite .withoutSpans)) = rowCount data := by
  cases data <;> simp [rowCount, InlineData.rewrite]

theorem Query.hasModifier_withoutSpans (m : CountedModifier) (q : Query) :
    (q.rewrite .withoutSpans).hasModifier m = q.hasModifier m := by
  cases q
  cases m <;> simp [Query.rewrite, Query.hasModifier, OrderCondition.rewriteAll_eq_map,
    Expression.rewriteAll_eq_map, GroupCondition.rewriteAll_eq_map]

theorem Query.root_withoutSpans (q : Query) :
    (q.rewrite .withoutSpans).root = q.root.rewrite .withoutSpans := by
  cases q
  rw [Query.rewrite]

theorem Query.resultVariables_withoutSpans (q : Query) :
    (q.rewrite .withoutSpans).resultVariables = q.resultVariables := by
  cases q
  rw [Query.rewrite]

theorem Query.counts_of_root (q : Query) : q.counts =
    { q.root.counts with
      modifier := fun m => q.root.counts.modifier m + tally (q.hasModifier m) } := by
  cases q
  rfl

mutual

theorem Group.counts_withoutSpans : ∀ g : Group, (g.rewrite .withoutSpans).counts = g.counts
  | ⟨_, elements, children, _, _⟩ => by
    have inside := Element.counts_withoutSpans elements
    have below := Group.countsAll_withoutSpans children
    simp only [Element.counts, Group.countsAll, Counts.mk.injEq, funext_iff] at inside below
    simp [Group.counts, Group.rewrite, Group.countTriples, Group.countFilters,
      Group.countResources, Group.countModifier, rowCount_withoutSpans, inside, below]

theorem Group.countsAll_withoutSpans : ∀ gs : List Group,
    Group.countsAll (Group.rewriteAll .withoutSpans gs) = Group.countsAll gs
  | [] => rfl
  | g :: rest => by
    have head := Group.counts_withoutSpans g
    have tail := Group.countsAll_withoutSpans rest
    simp only [Group.counts, Group.countsAll, Counts.mk.injEq, funext_iff] at head tail
    simp [Group.rewriteAll, Group.countsAll, Group.countTriplesAll, Group.countFiltersAll,
      Group.countResourcesAll, Group.countModifierAll, head, tail]

theorem Element.counts_withoutSpans : ∀ es : List Element,
    Element.counts (Element.rewriteAll .withoutSpans es) = Element.counts es
  | [] => rfl
  | e :: rest => by
    have tail := Element.counts_withoutSpans rest
    simp only [Element.counts, Counts.mk.injEq, funext_iff] at tail
    cases e with
    | subquery query span =>
        cases query with
        | none => simp [Element.counts, Element.countTriples, Element.countFilters,
            Element.countResources, Element.countModifier, tail]
        | some query =>
            have inside := Query.counts_withoutSpans query
            simp only [Query.counts, Counts.mk.injEq, funext_iff] at inside
            simp [Element.counts, Element.countTriples, Element.countFilters,
              Element.countResources, Element.countModifier, inside, tail]
    | _ => simp [Element.counts, Element.countTriples, Element.countFilters,
            Element.countResources, Element.countModifier, endResources, Triple.rewrite, tail]

theorem Query.counts_withoutSpans : ∀ q : Query, (q.rewrite .withoutSpans).counts = q.counts
  | ⟨form, names, dataset, root, groupBy, having, orderBy, limit, offset, values, span⟩ => by
    have inside := Group.counts_withoutSpans root
    rw [Query.counts_of_root, Query.counts_of_root]
    simp only [Query.hasModifier_withoutSpans]
    rw [Query.root_withoutSpans, inside]

end

end Counts

namespace QueryUnit

variable {unit other : QueryUnit}

/-- Queries that are equal up to spans and have the same declarations have one written form. -/
theorem write_congr (namespaces : unit.namespaces = other.namespaces)
    (query : unit.query.rewrite .withoutSpans = other.query.rewrite .withoutSpans) :
    unit.write = other.write := by
  rw [write, write, namespaces, ← unit.query.write_withoutSpans, query,
    other.query.write_withoutSpans]

/-- Queries that are equal up to spans and have the same declarations have the same metrics. -/
theorem measure_congr (namespaces : unit.namespaces = other.namespaces)
    (query : unit.query.rewrite .withoutSpans = other.query.rewrite .withoutSpans) (m : Metric) :
    unit.measure m = other.measure m := by
  have counts : unit.query.root.counts = other.query.root.counts ∧
      unit.query.counts = other.query.counts := by
    rw [← unit.query.root.counts_withoutSpans, ← unit.query.counts_withoutSpans,
      ← Query.root_withoutSpans, query, Query.root_withoutSpans, Group.counts_withoutSpans,
      Query.counts_withoutSpans]
    exact ⟨rfl, rfl⟩
  have names : unit.query.resultVariables = other.query.resultVariables := by
    rw [← unit.query.resultVariables_withoutSpans, query, other.query.resultVariables_withoutSpans]
  have length : unit.normalLength = other.normalLength := by
    rw [normalLength, normalLength, normalText, normalText, write_congr namespaces query,
      namespaces]
  simp only [Group.counts, Query.counts, Counts.mk.injEq, funext_iff] at counts
  obtain ⟨⟨triples, filters, resources, _⟩, _, _, _, modifier⟩ := counts
  cases m <;> simp [measure, Query.countVariables, triples, filters, resources, modifier, names,
    length]

end QueryUnit

end SparqlMetrics
