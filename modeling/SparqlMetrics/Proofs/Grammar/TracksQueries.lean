import SparqlMetrics.Grammar.Unit
import SparqlMetrics.Proofs.Grammar.TracksExpressions

/-!
# Two runs of the readers of queries

The readers of clauses and groups follow each other when the readers one level further in do, so the
levels of two runs do, by induction on the nesting that is still allowed; the first run may allow
more. A prologue needs more than the terms do: declaring the same name in both runs has to keep the
declarations related, and no name may be respelled. Main statements: `tracks_queryBehind`,
`tracks_declaration?`.
-/
namespace SparqlMetrics

/-- Reads what stands behind the prologue of a text. -/
def Grammar.queryBehind (ns : Namespaces) : Parser QueryUnit := do
  let level := Level.outermost ns
  let b ← body level
  let m ← modifiers level
  let values ← trailingValues ns
  endOfText
  let span : Span := ⟨0, ← Parser.position⟩
  pure ⟨ns, assemble b.form b.dataset b.root m none values span⟩

theorem Grammar.queryUnit_eq : queryUnit = prologue >>= queryBehind := rfl

namespace TwoRuns

open SparqlMetrics.Parser SparqlMetrics.Grammar

abbrev SameGroup (S : TwoRuns) : Group → Group → Prop := Same (Group.rewrite S.rewriting)

abbrev SameForm (S : TwoRuns) : Form → Form → Prop := Same (Form.rewrite S.rewriting)

structure SameModifiers (S : TwoRuns) (a b : Modifiers) : Prop where
  groupBy : Same (List.map (GroupCondition.rewrite S.rewriting)) a.groupBy b.groupBy
  having : S.SameExpressions a.having b.having
  orderBy : Same (List.map (OrderCondition.rewrite S.rewriting)) a.orderBy b.orderBy
  bounds : a.bounds = b.bounds

variable {S : TwoRuns} {ns ms : Namespaces} {l m : Level}

theorem same_projection {name : Text} {value value' : Expression}
    (h : S.SameExpression value value') (span span' : Span) :
    Same (Projection.rewrite S.rewriting) ⟨name, some value, span⟩ ⟨name, some value', span'⟩ := by
  simp only [Same, Projection.rewrite, S.span_eq span span', Projection.mk.injEq, true_and, and_true,
    Option.some.injEq]
  exact h

theorem tracks_namedProjection (h : S.LevelTracks l m) :
    S.Tracks (Same (Projection.rewrite S.rewriting)) (namedProjection l) (namedProjection m) :=
  tracks_position.bind fun _ _ _ => tracks_skip.bind fun _ _ _ => (tracks_expression h).bind
    fun _ _ value => (tracks_keyword _ _).bind fun _ _ _ => (tracks_variableName _).bind
      fun _ _ name => name ▸ (tracks_mark _ _).bind fun _ _ _ => tracks_position.bind fun _ _ _ =>
        tracks_pure (same_projection value _ _)

theorem tracks_projection? (h : S.LevelTracks l m) :
    S.Tracks (Same (Option.map (Projection.rewrite S.rewriting))) (projection? l)
      (projection? m) :=
  tracks_token.bind fun t u alike => by
    obtain ⟨here, start, stop⟩ := t
    obtain ⟨there, start', stop'⟩ := u
    obtain ⟨alike, _⟩ := alike
    dsimp only at alike ⊢
    cases alike with
    | same =>
        split
        · refine tracks_skip.bind fun _ _ _ => tracks_pure (congrArg some ?_)
          simp only [Projection.rewrite, S.span_eq ⟨start, stop⟩ ⟨start', stop'⟩]
        · exact (tracks_namedProjection h).some
        · exact tracks_none
    | iri => exact tracks_none

theorem tracks_selectModifier : S.Tracks Eq selectModifier selectModifier :=
  (tracks_tryKeyword _).bind fun _ _ same => same ▸ tracks_ite (fun _ => tracks_pure rfl)
    fun _ => (tracks_tryKeyword _).bind fun _ _ same => same ▸
      tracks_ite (fun _ => tracks_pure rfl) fun _ => tracks_pure rfl

theorem same_isEmpty {α κ : Type} {f : α → κ} {xs ys : List α} (h : Same (List.map f) xs ys) :
    xs.isEmpty = ys.isEmpty := by
  rw [Bool.eq_iff_iff, List.isEmpty_iff_length_eq_zero, List.isEmpty_iff_length_eq_zero,
    same_length h]

theorem tracks_selectClause (h : S.LevelTracks l m) :
    S.Tracks S.SameForm (selectClause l) (selectClause m) :=
  tracks_skip.bind fun _ _ _ => tracks_selectModifier.bind fun _ _ same => same ▸
    (tracks_tryMark _).bind fun _ _ same => same ▸ tracks_ite (fun _ => tracks_pure rfl)
      fun _ => (tracks_projection? h).many.bind fun items items' same => by
        rw [same_isEmpty same]
        refine tracks_ite (fun _ => tracks_expected _ _) fun _ => tracks_pure ?_
        simp only [SameForm, Same, Form.rewrite, Projection.rewriteAll_eq_map]
        rw [same]

def rewriteTemplate (w : Rewriting) (state : Bool × List Element) : Bool × List Element :=
  (state.1, state.2.map (Element.rewrite w))

theorem tracks_templateTriples? (h : S.LevelTracks l m) (awaited : Bool) :
    S.Tracks (Same (Option.map (rewriteTemplate S.rewriting))) (templateTriples? l awaited)
      (templateTriples? m awaited) := by
  unfold templateTriples?
  refine (tracks_isAt _).bind fun _ _ same => same ▸ tracks_ite (fun _ => tracks_none) fun _ => ?_
  refine tracks_atTriples.bind fun _ _ same => same ▸ tracks_ite (fun _ => ?_)
    fun _ => tracks_expected _ _
  exact (tracks_triplesSameSubject h).bind fun _ _ triples => (tracks_tryMark _).bind
    fun more _ same => same ▸ tracks_pure (congrArg (fun es => some (more, es)) triples)

theorem tracks_template (h : S.LevelTracks l m) :
    S.Tracks S.SameElements (template l) (template m) := by
  refine Tracks.bind (R := Same (rewriteTemplate S.rewriting)) ?_ fun state state' same =>
    (tracks_mark _ _).bind fun _ _ _ => tracks_pure (congrArg Prod.snd same)
  refine tracks_loop (fun state state' same => ?_) rfl
  obtain ⟨more, elements⟩ := state
  obtain ⟨more', elements'⟩ := state'
  obtain ⟨rfl, sameElements⟩ := Prod.mk.inj same
  refine (tracks_templateTriples? h more).bind fun found found' same => ?_
  cases found with
  | none =>
      cases found' with
      | none => exact tracks_none
      | some r => cases same
  | some r =>
      cases found' with
      | none => cases same
      | some r' =>
          obtain ⟨next, triples⟩ := r
          obtain ⟨next', triples'⟩ := r'
          obtain ⟨rfl, sameTriples⟩ := Prod.mk.inj (Option.some.inj same)
          exact tracks_pure (congrArg (fun es => some (next, es))
            (same_append sameElements sameTriples))

theorem tracks_describeTarget? (h : S.related ns ms) :
    S.Tracks (Same (Option.map (Term.rewrite S.rewriting))) (describeTarget? ns)
      (describeTarget? ms) :=
  tracks_lexeme.bind fun here there alike => by
    cases alike.1 with
    | same =>
        split
        · exact (tracks_varOrIri h).some
        · exact (tracks_varOrIri h).some
        · exact (tracks_varOrIri h).some
        · exact tracks_none
    | iri => exact (tracks_varOrIri h).some

theorem tracks_describeClause (h : S.related ns ms) :
    S.Tracks S.SameForm (describeClause ns) (describeClause ms) :=
  tracks_skip.bind fun _ _ _ => (tracks_tryMark _).bind fun _ _ same => same ▸
    tracks_ite (fun _ => tracks_pure rfl) fun _ => (tracks_describeTarget? h).many.bind
      fun targets targets' same => by
        rw [same_isEmpty same]
        refine tracks_ite (fun _ => tracks_expected _ _) fun _ => tracks_pure ?_
        exact congrArg (Form.describe false) same

theorem tracks_datasetClause? (h : S.related ns ms) :
    S.Tracks (Same (Option.map (DatasetClause.rewrite S.rewriting))) (datasetClause? ns)
      (datasetClause? ms) :=
  (tracks_tryKeyword _).bind fun _ _ same => same ▸ tracks_ite
    (fun _ => (tracks_tryKeyword _).bind fun named _ same => same ▸ (tracks_resolvedIri h).bind
      fun _ _ iri => tracks_skip.bind fun _ _ _ => tracks_pure
        (congrArg (fun iri => some (DatasetClause.mk iri named)) iri))
    fun _ => tracks_none

theorem tracks_plainGroup (h : S.LevelTracks l m) :
    S.Tracks S.SameGroup (l.group .group) (m.group .group) := h.group _ _ rfl

theorem tracks_whereClause (h : S.LevelTracks l m) :
    S.Tracks S.SameGroup (whereClause l) (whereClause m) :=
  (tracks_tryKeyword _).bind fun _ _ _ => (tracks_isAt _).bind fun _ _ same => same ▸
    tracks_ite (fun _ => tracks_plainGroup h) fun _ => tracks_expected _ _

theorem tracks_variableCondition (h : S.related ns ms) :
    S.Tracks S.SameExpression (variableCondition ns) (variableCondition ms) :=
  (tracks_varOrTerm h).bind fun _ _ same => tracks_pure (same_termExpression same _ _)

theorem tracks_conditionName? : S.Tracks Eq conditionName? conditionName? :=
  (tracks_tryKeyword _).bind fun _ _ same => same ▸ tracks_ite
    (fun _ => (tracks_variableName _).map fun _ _ same => congrArg some same)
    fun _ => tracks_pure rfl

/-- A condition of one expression, read as a constraint. -/
theorem tracks_constraintAs {α κ : Type} {f : α → κ} (make : Expression → α)
    (h : S.LevelTracks l m)
    (hm : ∀ e e', S.SameExpression e e' → Same f (make e) (make e')) :
    S.Tracks (Same (Option.map f))
      (do if ← atConstraint then return some (make (← constraint l)) else pure none)
      (do if ← atConstraint then return some (make (← constraint m)) else pure none) :=
  tracks_atConstraint.bind fun _ _ same => same ▸ tracks_ite
    (fun _ => (tracks_constraint h).bind fun e e' same =>
      tracks_pure (congrArg some (hm e e' same)))
    fun _ => tracks_none

theorem same_groupCondition {value value' : Expression} (h : S.SameExpression value value')
    (name : Option Text) :
    Same (GroupCondition.rewrite S.rewriting) ⟨value, name⟩ ⟨value', name⟩ :=
  congrArg (GroupCondition.mk · name) h

theorem same_orderCondition {value value' : Expression} (h : S.SameExpression value value')
    (direction : Direction) :
    Same (OrderCondition.rewrite S.rewriting) ⟨value, direction⟩ ⟨value', direction⟩ :=
  congrArg (OrderCondition.mk · direction) h

theorem tracks_groupCondition? (h : S.LevelTracks l m) :
    S.Tracks (Same (Option.map (GroupCondition.rewrite S.rewriting))) (groupCondition? l)
      (groupCondition? m) := by
  have bare := tracks_constraintAs (fun e => GroupCondition.mk e none) h
    fun e e' same => same_groupCondition same none
  refine tracks_lexeme.bind fun here there alike => ?_
  cases alike.1 with
  | same =>
      split
      · exact (tracks_variableCondition h.namespaces).bind fun _ _ same =>
          tracks_pure (congrArg some (same_groupCondition same none))
      · exact tracks_skip.bind fun _ _ _ => (tracks_expression h).bind fun _ _ value =>
          tracks_conditionName?.bind fun name _ same => same ▸ (tracks_mark _ _).bind
            fun _ _ _ => tracks_pure (congrArg some (same_groupCondition value name))
      · exact bare
  | iri => exact bare

theorem tracks_conditions {α κ : Type} {f : α → κ} {item item' : Parser (Option α)}
    (h : S.Tracks (Same (Option.map f)) item item') (e : Expectation) :
    S.Tracks (Same (List.map f))
      (do let conditions ← many item; if conditions.isEmpty then expected e else pure conditions)
      (do let conditions ← many item'; if conditions.isEmpty then expected e else pure conditions) :=
  h.many.bind fun conditions conditions' same => by
    rw [same_isEmpty same]
    exact tracks_ite (fun _ => tracks_expected _ _) fun _ => tracks_pure same

theorem tracks_groupClause (h : S.LevelTracks l m) :
    S.Tracks (Same (List.map (GroupCondition.rewrite S.rewriting))) (groupClause l)
      (groupClause m) :=
  (tracks_tryKeyword _).bind fun _ _ same => same ▸ tracks_ite
    (fun _ => (tracks_keyword _ _).bind fun _ _ _ =>
      tracks_conditions (tracks_groupCondition? h) _)
    fun _ => tracks_pure rfl

theorem tracks_havingClause (h : S.LevelTracks l m) :
    S.Tracks S.SameExpressions (havingClause l) (havingClause m) :=
  (tracks_tryKeyword _).bind fun _ _ same => same ▸ tracks_ite
    (fun _ => tracks_conditions (tracks_atConstraint.bind fun _ _ same => same ▸ tracks_ite
      (fun _ => (tracks_constraint h).some) fun _ => tracks_none) _)
    fun _ => tracks_pure rfl

theorem tracks_orderCondition? (h : S.LevelTracks l m) :
    S.Tracks (Same (Option.map (OrderCondition.rewrite S.rewriting))) (orderCondition? l)
      (orderCondition? m) := by
  have bare := tracks_constraintAs (fun e => OrderCondition.mk e .unmarked) h
    fun e e' same => same_orderCondition same .unmarked
  refine tracks_lexeme.bind fun here there alike => ?_
  cases alike.1 with
  | same =>
      split
      · exact tracks_skip.bind fun _ _ _ => (tracks_bracketedExpression h).bind fun _ _ same =>
          tracks_pure (congrArg some (same_orderCondition same .ascending))
      · exact tracks_skip.bind fun _ _ _ => (tracks_bracketedExpression h).bind fun _ _ same =>
          tracks_pure (congrArg some (same_orderCondition same .descending))
      · exact (tracks_variableCondition h.namespaces).bind fun _ _ same =>
          tracks_pure (congrArg some (same_orderCondition same .unmarked))
      · exact bare
  | iri => exact bare

theorem tracks_orderClause (h : S.LevelTracks l m) :
    S.Tracks (Same (List.map (OrderCondition.rewrite S.rewriting))) (orderClause l)
      (orderClause m) :=
  (tracks_tryKeyword _).bind fun _ _ same => same ▸ tracks_ite
    (fun _ => (tracks_keyword _ _).bind fun _ _ _ =>
      tracks_conditions (tracks_orderCondition? h) _)
    fun _ => tracks_pure rfl

theorem tracks_count (clause : CountClause) : S.Tracks Eq (count clause) (count clause) :=
  tracks_lexeme.bind fun here there alike => by
    cases alike.1 with
    | same =>
        split
        · split
          · exact tracks_skip.bind fun _ _ _ => tracks_pure rfl
          · exact tracks_fail _ _
        · exact tracks_expected _ _
    | iri => exact tracks_expected _ _

theorem tracks_countOnce (clause : CountClause) (known : Option Int) :
    S.Tracks Eq (countOnce clause known) (countOnce clause known) :=
  tracks_ite (fun _ => tracks_fail _ _)
    fun _ => tracks_skip.bind fun _ _ _ => tracks_count clause

theorem tracks_bound? (bounds : Bounds) :
    S.Tracks (Same (Option.map id)) (bound? bounds) (bound? bounds) :=
  (tracks_isAtKeyword _).bind fun _ _ same => same ▸ tracks_ite
    (fun _ => (tracks_countOnce _ _).bind fun _ _ same => same ▸ tracks_pure rfl)
    fun _ => (tracks_isAtKeyword _).bind fun _ _ same => same ▸ tracks_ite
      (fun _ => (tracks_countOnce _ _).bind fun _ _ same => same ▸ tracks_pure rfl)
      fun _ => tracks_none

theorem tracks_modifiers (h : S.LevelTracks l m) :
    S.Tracks S.SameModifiers (modifiers l) (modifiers m) := by
  have bounds : S.Tracks (Same id) (repeatFrom bound? {}) (repeatFrom bound? {}) := by
    refine tracks_loop (fun v w same => ?_) rfl
    obtain rfl : v = w := same
    exact tracks_bound? v
  exact (tracks_groupClause h).bind fun _ _ groupBy => (tracks_havingClause h).bind
    fun _ _ having => (tracks_orderClause h).bind fun _ _ orderBy => bounds.bind
      fun _ _ bounds => tracks_pure ⟨groupBy, having, orderBy, bounds⟩

theorem tracks_trailingValues (h : S.related ns ms) :
    S.Tracks (Same (Option.map (InlineData.rewrite S.rewriting))) (trailingValues ns)
      (trailingValues ms) :=
  (tracks_tryKeyword _).bind fun _ _ same => same ▸
    tracks_ite (fun _ => (tracks_inlineData h).some) fun _ => tracks_none

/-- The queries that alike clauses make up are alike, in their result variables as well. -/
theorem same_assemble {form form' : Form} {dataset dataset' : List DatasetClause}
    {root root' : Group} {a b : Modifiers} {inScope inScope' values values' : Option InlineData}
    (hf : S.SameForm form form')
    (hd : Same (List.map (DatasetClause.rewrite S.rewriting)) dataset dataset')
    (hr : S.SameGroup root root') (hm : S.SameModifiers a b)
    (hs : Same (Option.map (InlineData.rewrite S.rewriting)) inScope inScope')
    (hv : Same (Option.map (InlineData.rewrite S.rewriting)) values values') (span span' : Span) :
    Same (Query.rewrite S.rewriting) (assemble form dataset root a inScope values span)
      (assemble form' dataset' root' b inScope' values' span') := by
  have names : form.resultVariables root inScope = form'.resultVariables root' inScope' := by
    rw [← Form.resultVariables_rewrite S.rewriting form root inScope, hf, hr, hs,
      Form.resultVariables_rewrite]
  simp only [Same, assemble, Query.rewrite, GroupCondition.rewriteAll_eq_map,
    OrderCondition.rewriteAll_eq_map, names, hm.having.all, S.span_eq span span', hm.bounds]
  rw [hf, hd, hr, hm.groupBy, hm.orderBy, hv]

theorem tracks_subSelect (h : S.LevelTracks l m) :
    S.Tracks (Same (Query.rewrite S.rewriting)) (subSelect l) (subSelect m) :=
  tracks_position.bind fun _ _ _ => (tracks_selectClause h).bind fun _ _ form =>
    (tracks_whereClause h).bind fun _ _ root => (tracks_modifiers h).bind fun _ _ modifiers =>
      (tracks_trailingValues h.namespaces).bind fun _ _ values => tracks_position.bind
        fun _ _ _ => tracks_pure (same_assemble form rfl root modifiers values values _ _)

def rewriteDraft (w : Rewriting) (d : Draft) : Draft :=
  ⟨d.elements.map (Element.rewrite w), d.children.map (Group.rewrite w),
    d.data.map (InlineData.rewrite w)⟩

abbrev SameDraft (S : TwoRuns) : Draft → Draft → Prop := Same (rewriteDraft S.rewriting)

theorem SameDraft.addElements {d d' : Draft} (h : S.SameDraft d d') {es es' : List Element}
    (he : S.SameElements es es') : S.SameDraft (d.addElements es) (d'.addElements es') := by
  obtain ⟨elements, children, data⟩ := Draft.mk.inj h
  simp only [SameDraft, Same, rewriteDraft, Draft.addElements, Draft.mk.injEq]
  exact ⟨same_append elements he, children, data⟩

theorem SameDraft.addChild {d d' : Draft} (h : S.SameDraft d d') {g g' : Group}
    (hg : S.SameGroup g g') : S.SameDraft (d.addChild g) (d'.addChild g') := by
  obtain ⟨elements, children, data⟩ := Draft.mk.inj h
  simp only [SameDraft, Same, rewriteDraft, Draft.addChild, Draft.mk.injEq]
  exact ⟨elements, same_append children (same_cons hg rfl), data⟩

theorem SameDraft.addData {d d' : Draft} (h : S.SameDraft d d') {t t' : InlineData}
    (ht : Same (InlineData.rewrite S.rewriting) t t') :
    S.SameDraft (d.addData t) (d'.addData t') := by
  obtain ⟨elements, children, data⟩ := d
  obtain ⟨elements', children', data'⟩ := d'
  obtain ⟨sameElements, sameChildren, sameData⟩ := Draft.mk.inj h
  cases data with
  | none =>
      cases data' with
      | some _ => cases sameData
      | none =>
          simp only [SameDraft, Same, rewriteDraft, Draft.addData, Draft.mk.injEq]
          exact ⟨sameElements, sameChildren, congrArg some ht⟩
  | some _ =>
      cases data' with
      | none => cases sameData
      | some _ =>
          refine SameDraft.addChild h ?_
          simp only [SameGroup, Same, Group.rewrite, Element.rewriteAll, Group.rewriteAll,
            GroupKind.rewrite, S.span_eq t.span t'.span, Group.mk.injEq, true_and, and_true]
          exact congrArg some ht

theorem same_draftGroup {d d' : Draft} (h : S.SameDraft d d') {kind kind' : GroupKind}
    (hk : Same (GroupKind.rewrite S.rewriting) kind kind') (span span' : Span) :
    S.SameGroup (d.group kind span) (d'.group kind' span') := by
  obtain ⟨elements, children, data⟩ := Draft.mk.inj h
  simp only [SameGroup, Same, Draft.group, Group.rewrite, Element.rewriteAll_eq_map,
    Group.rewriteAll_eq_map, S.span_eq span span', elements, children, data]
  rw [hk]

theorem tracks_moreAlternatives (h : S.LevelTracks l m) :
    S.Tracks (Same (List.map (Group.rewrite S.rewriting))) (moreAlternatives l)
      (moreAlternatives m) :=
  Tracks.many ((tracks_tryKeyword _).bind fun _ _ same => same ▸
    tracks_ite (fun _ => (tracks_plainGroup h).some) fun _ => tracks_none)

theorem same_union {gs gs' : List Group} (h : Same (List.map (Group.rewrite S.rewriting)) gs gs')
    (span span' : Span) : S.SameGroup ⟨.union, [], gs, none, span⟩ ⟨.union, [], gs', none, span'⟩ := by
  simp only [SameGroup, Same, Group.rewrite, Group.rewriteAll_eq_map, S.span_eq span span',
    Group.mk.injEq, true_and, and_true]
  exact h

theorem tracks_groupOrUnion (h : S.LevelTracks l m) :
    S.Tracks S.SameGroup (groupOrUnion l) (groupOrUnion m) :=
  (tracks_plainGroup h).bind fun _ _ first => (tracks_moreAlternatives h).bind
    fun more more' same => by
      rw [same_isEmpty same]
      refine tracks_ite (fun _ => tracks_pure first) fun _ => ?_
      exact tracks_position.bind fun _ _ _ => tracks_pure (same_union (same_cons first same) _ _)

theorem tracks_filter (h : S.LevelTracks l m) :
    S.Tracks (Same (Element.rewrite S.rewriting)) (filter l) (filter m) :=
  tracks_position.bind fun _ _ _ => tracks_skip.bind fun _ _ _ => (tracks_constraint h).bind
    fun _ _ condition => tracks_position.bind fun _ _ _ => tracks_pure <| by
      simp only [Same, Element.rewrite, S.span_eq ⟨_, _⟩ {}, Element.filter.injEq, and_true]
      exact condition

theorem tracks_bindTarget (h : S.related ns ms) :
    S.Tracks (Same (Term.rewrite S.rewriting)) (bindTarget ns) (bindTarget ms) :=
  tracks_lexeme.bind fun here there alike => by
    cases alike.1 with
    | same =>
        split
        · exact tracks_varOrTerm h
        · exact tracks_expected _ _
    | iri => exact tracks_expected _ _

theorem tracks_binding (h : S.LevelTracks l m) :
    S.Tracks (Same (Element.rewrite S.rewriting)) (binding l) (binding m) :=
  tracks_position.bind fun _ _ _ => tracks_skip.bind fun _ _ _ => (tracks_mark _ _).bind
    fun _ _ _ => (tracks_expression h).bind fun _ _ value => (tracks_keyword _ _).bind
      fun _ _ _ => (tracks_bindTarget h.namespaces).bind fun _ _ target => (tracks_mark _ _).bind
        fun _ _ _ => tracks_position.bind fun _ _ _ => tracks_pure <| by
          simp only [Same, Element.rewrite, S.span_eq ⟨_, _⟩ {}, Element.bind.injEq, and_true]
          exact ⟨value, target⟩

theorem tracks_namedGroup (h : S.LevelTracks l m) {kind : Term → GroupKind}
    (hk : ∀ t t', Same (Term.rewrite S.rewriting) t t' →
      Same (GroupKind.rewrite S.rewriting) (kind t) (kind t')) :
    S.Tracks S.SameGroup (namedGroup l kind) (namedGroup m kind) :=
  (tracks_varOrIri h.namespaces).bind fun t t' same => h.group _ _ (hk t t' same)

theorem tracks_serviceGroup (h : S.LevelTracks l m) :
    S.Tracks S.SameGroup (serviceGroup l) (serviceGroup m) :=
  (tracks_tryKeyword _).bind fun silent _ same => same ▸ tracks_namedGroup h
    fun _ _ same => congrArg (fun t => GroupKind.service (some t) silent) same

theorem tracks_triplesBlock (h : S.LevelTracks l m) :
    S.Tracks S.SameElements (triplesBlock l) (triplesBlock m) :=
  tracks_lexeme.bind fun _ _ _ => tracks_atTriples.bind fun _ _ same => same ▸ tracks_ite
    (fun _ => (tracks_triplesSameSubject h).bind fun _ _ triples => (tracks_tryMark _).bind
      fun _ _ same => same ▸ tracks_ite (fun _ => tracks_pure triples) fun _ =>
        tracks_atTriples.bind fun _ _ same => same ▸
          tracks_ite (fun _ => tracks_expected _ _) fun _ => tracks_pure triples)
    fun _ => tracks_fail _ _

theorem tracks_member? (h : S.LevelTracks l m) (d d' : Draft) (hd : S.SameDraft d d') :
    S.Tracks (Same (Option.map (rewriteDraft S.rewriting))) (member? l d) (member? m d') := by
  have child : ∀ {p q : Parser Group}, S.Tracks S.SameGroup p q →
      S.Tracks (Same (Option.map (rewriteDraft S.rewriting)))
        (do return some (d.addChild (← p))) (do return some (d'.addChild (← q))) :=
    fun hp => hp.bind fun _ _ same => tracks_pure (congrArg some (SameDraft.addChild hd same))
  have element : ∀ {p q : Parser Element}, S.Tracks (Same (Element.rewrite S.rewriting)) p q →
      S.Tracks (Same (Option.map (rewriteDraft S.rewriting)))
        (do return some (d.addElements [← p])) (do return some (d'.addElements [← q])) :=
    fun hp => hp.bind fun _ _ same =>
      tracks_pure (congrArg some (SameDraft.addElements hd (same_cons same rfl)))
  have triples : S.Tracks (Same (Option.map (rewriteDraft S.rewriting)))
      (do return some (d.addElements (← triplesBlock l)))
      (do return some (d'.addElements (← triplesBlock m))) :=
    (tracks_triplesBlock h).bind fun _ _ same =>
      tracks_pure (congrArg some (SameDraft.addElements hd same))
  refine tracks_lexeme.bind fun here there alike => ?_
  cases alike.1 with
  | same =>
      split
      · exact tracks_none
      · exact tracks_none
      · exact tracks_skip.bind fun _ _ _ => tracks_pure (congrArg some hd)
      · exact child (tracks_groupOrUnion h)
      · exact tracks_skip.bind fun _ _ _ => child (h.group _ _ rfl)
      · exact tracks_skip.bind fun _ _ _ => child (h.group _ _ rfl)
      · exact tracks_skip.bind fun _ _ _ => child (tracks_namedGroup h
          fun _ _ same => congrArg (fun t => GroupKind.graph (some t)) same)
      · exact tracks_skip.bind fun _ _ _ => child (tracks_serviceGroup h)
      · exact element (tracks_filter h)
      · exact element (tracks_binding h)
      · exact tracks_skip.bind fun _ _ _ => (tracks_inlineData h.namespaces).bind
          fun _ _ same => tracks_pure (congrArg some (SameDraft.addData hd same))
      · exact triples
  | iri => exact triples

theorem same_subqueryDraft {q q' : Query} (h : Same (Query.rewrite S.rewriting) q q')
    (span span' : Span) :
    S.SameDraft { elements := [.subquery (some q) span] }
      { elements := [.subquery (some q') span'] } := by
  simp only [SameDraft, Same, rewriteDraft, List.map_cons, List.map_nil, Element.rewrite,
    S.span_eq span span']
  rw [h]

theorem tracks_groupContent (h : S.LevelTracks l m) :
    S.Tracks S.SameDraft (groupContent l) (groupContent m) :=
  (tracks_isAtKeyword _).bind fun _ _ same => same ▸ tracks_ite
    (fun _ => tracks_position.bind fun _ _ _ => (tracks_subSelect h).bind fun _ _ same =>
      tracks_position.bind fun _ _ _ => tracks_pure (same_subqueryDraft same _ _))
    fun _ => tracks_loop (tracks_member? h) rfl

theorem tracks_bracedGroup (h : S.LevelTracks l m) (kind kind' : GroupKind)
    (hk : Same (GroupKind.rewrite S.rewriting) kind kind') :
    S.Tracks S.SameGroup (bracedGroup l kind) (bracedGroup m kind') :=
  tracks_position.bind fun _ _ _ => (tracks_mark _ _).bind fun _ _ _ =>
    (tracks_groupContent h).bind fun _ _ draft => (tracks_mark _ _).bind fun _ _ _ =>
      tracks_position.bind fun _ _ _ => tracks_pure (same_draftGroup draft hk _ _)

/-- The levels of two runs follow each other; the first run may allow more nesting. -/
theorem levelTracks_ofAllowance (h : S.related ns ms) {more fewer : Nat} (le : fewer ≤ more) :
    S.LevelTracks (Level.ofAllowance ns more) (Level.ofAllowance ms fewer) := by
  induction fewer generalizing more with
  | zero =>
      cases more <;>
        exact ⟨h, tracks_fail _ _, fun _ _ _ => tracks_fail _ _, tracks_fail _ _, tracks_fail _ _⟩
  | succ fewer ih =>
      obtain ⟨more, rfl⟩ : ∃ n, more = n + 1 := ⟨more - 1, by omega⟩
      have inner := @ih more (by omega)
      exact ⟨h, tracks_operandWithin inner, tracks_bracedGroup inner, tracks_bracketedPath inner,
        tracks_bracketedBlankNode inner⟩

structure SameBody (S : TwoRuns) (a b : Body) : Prop where
  form : S.SameForm a.form b.form
  dataset : Same (List.map (DatasetClause.rewrite S.rewriting)) a.dataset b.dataset
  root : S.SameGroup a.root b.root

theorem tracks_datasetClauses (h : S.related ns ms) :
    S.Tracks (Same (List.map (DatasetClause.rewrite S.rewriting))) (datasetClauses ns)
      (datasetClauses ms) :=
  (tracks_datasetClause? h).many

theorem tracks_selectBody (h : S.LevelTracks l m) :
    S.Tracks S.SameBody (selectBody l) (selectBody m) :=
  (tracks_selectClause h).bind fun _ _ form => (tracks_datasetClauses h.namespaces).bind
    fun _ _ dataset => (tracks_whereClause h).bind fun _ _ root =>
      tracks_pure ⟨form, dataset, root⟩

theorem tracks_askBody (h : S.LevelTracks l m) : S.Tracks S.SameBody (askBody l) (askBody m) :=
  tracks_skip.bind fun _ _ _ => (tracks_datasetClauses h.namespaces).bind fun _ _ dataset =>
    (tracks_whereClause h).bind fun _ _ root => tracks_pure ⟨rfl, dataset, root⟩

theorem tracks_describeBody (h : S.LevelTracks l m) :
    S.Tracks S.SameBody (describeBody l) (describeBody m) :=
  (tracks_describeClause h.namespaces).bind fun _ _ form =>
    (tracks_datasetClauses h.namespaces).bind fun _ _ dataset => (tracks_isAtKeyword _).bind
      fun _ _ same => same ▸ (tracks_isAt _).bind fun _ _ same => same ▸ tracks_ite
        (fun _ => (tracks_whereClause h).bind fun _ _ root => tracks_pure ⟨form, dataset, root⟩)
        fun _ => tracks_pure ⟨form, dataset, rfl⟩

/-- The triples of alike elements; a path among them stops both runs. -/
theorem tracks_templateOf {es es' : List Element} (h : S.SameElements es es') :
    S.Tracks (Same (List.map (Triple.rewrite S.rewriting))) (templateOf es) (templateOf es') := by
  induction es' generalizing es with
  | nil =>
      obtain rfl : es = [] := List.map_eq_nil_iff.mp h
      exact tracks_pure rfl
  | cons e' rest' ih =>
      cases es with
      | nil => cases h
      | cons e rest =>
          obtain ⟨head, tail⟩ := List.cons.inj h
          cases e' with
          | triple t' =>
              cases e with
              | triple t =>
                  simp only [Element.rewrite, S.leaf_eq, Element.triple.injEq] at head
                  exact (ih tail).bind fun _ _ more => tracks_pure (same_cons head more)
              | path subject p object span => simp [Element.rewrite, S.leaf_eq] at head
              | filter condition span => simp [Element.rewrite, S.leaf_eq] at head
              | subquery query span => cases query <;> simp [Element.rewrite, S.leaf_eq] at head
              | bind value target span => simp [Element.rewrite, S.leaf_eq] at head
          | _ => exact tracks_fail _ _

theorem same_templateGroup {es es' : List Element} (h : S.SameElements es es')
    (span span' : Span) :
    S.SameGroup ⟨.group, es, [], none, span⟩ ⟨.group, es', [], none, span'⟩ := by
  have draft : S.SameDraft ⟨es, [], none⟩ ⟨es', [], none⟩ :=
    congrArg (fun es => Draft.mk es [] none) h
  exact same_draftGroup draft rfl span span'

theorem tracks_constructBody (h : S.LevelTracks l m) :
    S.Tracks S.SameBody (constructBody l) (constructBody m) :=
  tracks_skip.bind fun _ _ _ => (tracks_template h).bind fun _ _ elements =>
    (tracks_datasetClauses h.namespaces).bind fun _ _ dataset => (tracks_whereClause h).bind
      fun _ _ root => (tracks_templateOf elements).bind fun _ _ triples =>
        tracks_pure ⟨congrArg Form.construct triples, dataset, root⟩

theorem tracks_constructWhereBody (h : S.LevelTracks l m) :
    S.Tracks S.SameBody (constructWhereBody l) (constructWhereBody m) :=
  (tracks_datasetClauses h.namespaces).bind fun _ _ dataset => (tracks_keyword _ _).bind
    fun _ _ _ => tracks_position.bind fun _ _ _ => (tracks_mark _ _).bind fun _ _ _ =>
      (tracks_template h).bind fun _ _ elements => tracks_position.bind fun _ _ _ =>
        (tracks_templateOf elements).bind fun _ _ triples => tracks_pure
          ⟨congrArg Form.construct triples, dataset, same_templateGroup elements _ _⟩

theorem tracks_body (h : S.LevelTracks l m) : S.Tracks S.SameBody (body l) (body m) :=
  tracks_lexeme.bind fun here there alike => by
    rw [alike.answer (f := Lexeme.keyword?) fun _ _ _ => rfl]
    split
    · exact tracks_selectBody h
    · exact tracks_skip.bind fun _ _ _ => (tracks_isAt _).bind fun _ _ same => same ▸
        tracks_ite (fun _ => tracks_constructBody h) fun _ => tracks_constructWhereBody h
    · exact tracks_describeBody h
    · exact tracks_askBody h
    · exact tracks_expected _ _

theorem tracks_endOfText : S.Tracks Eq endOfText endOfText :=
  tracks_lexeme.bind fun here there alike => by
    cases alike.1 with
    | same =>
        split
        · exact tracks_pure rfl
        · exact tracks_fail _ _
    | iri => exact tracks_fail _ _

/-- Whole queries that are the same but for what is rewritten, under related declarations. -/
structure SameUnit (S : TwoRuns) (a b : QueryUnit) : Prop where
  namespaces : S.related a.namespaces b.namespaces
  query : Same (Query.rewrite S.rewriting) a.query b.query

theorem tracks_queryBehind (h : S.related ns ms) :
    S.Tracks S.SameUnit (queryBehind ns) (queryBehind ms) := by
  have level := levelTracks_ofAllowance h (Nat.le_refl maxNesting)
  exact (tracks_body level).bind fun _ _ body => (tracks_modifiers level).bind
    fun _ _ modifiers => (tracks_trailingValues h).bind fun _ _ values => tracks_endOfText.bind
      fun _ _ _ => tracks_position.bind fun _ _ _ => tracks_pure
        ⟨h, same_assemble body.form body.dataset body.root modifiers rfl values _ _⟩

/-- What two runs need to follow each other through a prologue. -/
structure Declares (S : TwoRuns) : Prop where
  exact : ∀ {reference label localName : Text}, ¬ S.respelled reference label localName
  declare : ∀ {ns ms : Namespaces} {label iri iri' : Text}, S.related ns ms →
    S.rewriting.iri iri = S.rewriting.iri iri' →
      S.related (ns.declare label iri) (ms.declare label iri')
  setBase : ∀ {ns ms : Namespaces} {iri iri' : Text}, S.related ns ms →
    S.rewriting.iri iri = S.rewriting.iri iri' →
      S.related { ns with base := some iri } { ms with base := some iri' }

theorem AlikeSpelled.eq (h : S.Declares) {here there : Lexeme}
    (alike : S.AlikeSpelled here there) : here = there := by
  cases alike.1 with
  | same => rfl
  | iri respelled => exact absurd respelled h.exact

theorem tracks_declaredIri (hd : S.Declares) (h : S.related ns ms) (missing : Malformed) :
    S.Tracks (Same S.rewriting.iri) (declaredIri ns missing) (declaredIri ms missing) :=
  tracks_lexeme.bind fun here there alike => by
    rw [alike.eq hd]
    split
    · exact (tracks_resolvedIri h).bind fun _ _ same => tracks_skip.bind fun _ _ _ =>
        tracks_pure same
    · exact tracks_fail _ _

theorem tracks_declaredLabel (hd : S.Declares) : S.Tracks Eq declaredLabel declaredLabel :=
  tracks_lexeme.bind fun here there alike => by
    rw [alike.eq hd]
    cases declaredLabel? there with
    | some label => exact tracks_skip.bind fun _ _ _ => tracks_pure rfl
    | none => exact tracks_expected _ _

theorem tracks_declaration? (hd : S.Declares) (ns ms : Namespaces) (h : S.related ns ms) :
    S.Tracks (Option.Rel S.related) (declaration? ns) (declaration? ms) :=
  (tracks_tryKeyword _).bind fun _ _ same => same ▸ tracks_ite
    (fun _ => (tracks_declaredIri hd h _).bind fun _ _ same =>
      tracks_pure (.some (hd.setBase h same)))
    fun _ => (tracks_tryKeyword _).bind fun _ _ same => same ▸ tracks_ite
      (fun _ => (tracks_declaredLabel hd).bind fun _ _ same => same ▸
        (tracks_declaredIri hd h _).bind fun _ _ same =>
          tracks_pure (.some (hd.declare h same)))
      fun _ => tracks_pure .none

/-- Two runs in front of one text, under the same declarations. -/
def ofOneText : TwoRuns where
  rewriting := .withoutSpans
  escapes _ := False
  related := Eq
  respelled _ _ _ := False
  span_eq _ _ := rfl
  leaf_eq _ := rfl
  resolve same found := .inl ⟨_, same ▸ found, rfl⟩
  expand same _ found := .inl ⟨_, same ▸ found, rfl⟩
  respell _ h := h.elim

theorem declares_ofOneText : ofOneText.Declares where
  exact h := h
  declare := by
    rintro ns _ label iri iri' rfl (same : iri = iri')
    exact same ▸ rfl
  setBase := by
    rintro ns _ iri iri' rfl (same : iri = iri')
    exact same ▸ rfl

end TwoRuns

end SparqlMetrics
