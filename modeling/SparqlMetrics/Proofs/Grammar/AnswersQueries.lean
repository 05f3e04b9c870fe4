import SparqlMetrics.Grammar.Unit
import SparqlMetrics.Proofs.Grammar.AnswersExpressions
import SparqlMetrics.Proofs.Grammar.AnswersTriples

/-!
# What readers of clauses, groups and queries answer

The readers of clauses and groups account for their answers when the readers one level further in
do, so by induction on the nesting that is still allowed every level does. A level at which nothing
may nest any more answers with an error. Main statements: `Grammar.answers_ofAllowance`,
`Grammar.answers_queryBehind`.
-/
namespace SparqlMetrics.Grammar

open SparqlMetrics.Parser

variable {S : Scope} {level : Level}

structure HoldsForm (S : Scope) (f : Form) : Prop where
  names : S.texts.Keeps f.names
  inside : f.Everywhere S.checks

structure HoldsProjection (S : Scope) (p : Projection) : Prop where
  name : S.texts.Holds p.name
  value : ∀ e, p.value = some e → HoldsExpression S e

structure HoldsCondition (S : Scope) (c : GroupCondition) : Prop where
  value : HoldsExpression S c.value
  name : ∀ name, c.name = some name → S.texts.Holds name

structure HoldsModifiers (S : Scope) (m : Modifiers) : Prop where
  groupBy : ∀ c ∈ m.groupBy, HoldsCondition S c
  having : ∀ e ∈ m.having, HoldsExpression S e
  orderBy : ∀ c ∈ m.orderBy, HoldsExpression S c.value

abbrev HoldsGroup (S : Scope) (g : Group) : Prop := g.Everywhere S.checks

/-! ## Clauses -/

theorem answersAt_namedProjection (h : level.Answers S) :
    AnswersAt S (.symbol .lparen) (namedProjection level) (HoldsProjection S) :=
  .position fun _ => (answers_skip rfl).bind fun _ _ => (answers_expression h).bind
    fun _ hv => (answers_keyword (by nofun) _).bind fun _ _ => (answers_variableName _).bind
      fun _ hname => (answers_mark (by nofun) _).bind fun _ _ => .position fun _ =>
        answers_pure ⟨hname, fun _ same => Option.some.inj same ▸ hv⟩

theorem answers_projection? (h : level.Answers S) :
    Answers S (projection? level) (IfSome (HoldsProjection S)) :=
  answers_of_at fun here => .token fun t same keeps _ => by
    rw [same]
    split
    · exact (answers_skip rfl).bind fun _ _ =>
        answers_pure (ifSome_some ⟨TextClass.keeps_singleton.mp keeps, nofun⟩)
    · exact (answersAt_namedProjection h).some
    · exact answers_none

theorem answers_selectModifier : Answers S selectModifier fun _ => True :=
  (answers_tryKeyword (by nofun)).bind fun _ _ => by
    split
    · exact answers_pure trivial
    · refine (answers_tryKeyword (by nofun)).bind fun _ _ => ?_
      split
      · exact answers_pure trivial
      · exact answers_pure trivial

theorem answersAt_selectClause (h : level.Answers S) {here : Lexeme}
    (isSelect : here.keyword? = some .SELECT) :
    AnswersAt S here (selectClause level) (HoldsForm S) :=
  (answers_skipKeyword isSelect (by nofun)).bind fun _ _ => answers_selectModifier.bind fun _ _ =>
    (answers_tryMark (by nofun)).bind fun _ _ => by
      split
      · exact answers_pure ⟨TextClass.keeps_nil, trivial⟩
      · refine (answers_many (answers_projection? h)).bind fun items hitems => ?_
        split
        · exact answers_expected _
        · refine answers_pure ⟨fun s member => ?_, ?_⟩
          · obtain ⟨item, inside, rfl⟩ := List.mem_map.mp member
            exact (hitems item inside).name
          · exact Projection.everywhereAll_iff.mpr fun item inside => (hitems item inside).value

theorem answers_atTriples : Answers S atTriples fun _ => True :=
  .drop fun _ => .followingLexeme fun _ => answers_pure trivial

theorem answers_templateTriples? (h : level.Answers S) (awaited : Bool) :
    Answers S (templateTriples? level awaited) (IfSome fun r => HoldsElements S r.2) := by
  unfold templateTriples?
  refine .drop fun _ => ?_
  split
  · exact answers_none
  · refine answers_atTriples.bind fun _ _ => ?_
    split
    · exact (answers_triplesSameSubject h).bind fun _ hes =>
        (answers_tryMark (by nofun)).bind fun _ _ => answers_pure (ifSome_some hes)
    · exact answers_expected _

theorem answers_template (h : level.Answers S) :
    Answers S (template level) (HoldsElements S) := by
  refine AnswersIf.bind (P := fun r => HoldsElements S r.2)
    (answers_repeatFrom (fun state hstate => ?_) (List.forall_mem_nil _)) fun _ hes =>
      (answers_mark (by nofun) _).bind fun _ _ => answers_pure hes
  refine (answers_templateTriples? h state.1).bind fun found hfound => ?_
  split
  · exact answers_pure (ifSome_some (List.forall_mem_append.mpr ⟨hstate, hfound _ rfl⟩))
  · exact answers_none

theorem answers_describeTarget? :
    Answers S (describeTarget? S.namespaces) (IfSome S.checks.term) :=
  answers_lexeme fun here _ => by
    split
    · exact answers_varOrIri.at.some
    · exact answers_varOrIri.at.some
    · exact answers_varOrIri.at.some
    · exact answers_none

theorem answersAt_describeClause {here : Lexeme} (isDescribe : here.keyword? = some .DESCRIBE) :
    AnswersAt S here (describeClause S.namespaces) (HoldsForm S) :=
  (answers_skipKeyword isDescribe (by nofun)).bind fun _ _ =>
    (answers_tryMark (by nofun)).bind fun _ _ => by
    split
    · exact answers_pure ⟨TextClass.keeps_nil, nofun⟩
    · refine (answers_many answers_describeTarget?).bind fun targets htargets => ?_
      split
      · exact answers_expected _
      · exact answers_pure ⟨TextClass.keeps_nil, htargets⟩

theorem answers_datasetClauses :
    Answers S (datasetClauses S.namespaces) (∀ clause ∈ ·, S.texts.Holds clause.iri) := by
  refine answers_many ((answers_tryKeyword (by nofun)).bind fun _ _ => ?_)
  split
  · exact (answers_tryKeyword (by nofun)).bind fun _ _ => Takes.answers <| takes_iri fun _ holds =>
      answers_pure (ifSome_some holds)
  · exact answers_none

theorem answers_whereClause (h : level.Answers S) :
    Answers S (whereClause level) (HoldsGroup S) :=
  (answers_tryKeyword (by nofun)).bind fun _ _ => .drop fun _ => by
    split
    · exact h.group .group trivial
    · exact answers_expected _

theorem answers_variableCondition :
    Answers S (variableCondition S.namespaces) (HoldsExpression S) :=
  answers_varOrTerm.bind fun _ ht => answers_pure ⟨TextClass.keeps_nil, ht⟩

theorem answers_conditionName? : Answers S conditionName? (IfSome S.texts.Holds) :=
  (answers_tryKeyword (by nofun)).bind fun _ _ => by
    split
    · exact (answers_variableName _).some
    · exact answers_none

theorem answers_groupCondition? (h : level.Answers S) :
    Answers S (groupCondition? level) (IfSome (HoldsCondition S)) := by
  unfold groupCondition?
  rw [h.namespaces]
  refine answers_lexeme fun here _ => ?_
  split
  · exact answers_variableCondition.at.bind fun _ hv => answers_pure (ifSome_some ⟨hv, nofun⟩)
  · exact (answers_skip rfl).bind fun _ _ => (answers_expression h).bind fun _ hv =>
      answers_conditionName?.bind fun _ hname => (answers_mark (by nofun) _).bind fun _ _ =>
        answers_pure (ifSome_some ⟨hv, hname⟩)
  · refine answers_atConstraint.at.bind fun _ _ => ?_
    split
    · exact (answers_constraint h).bind fun _ hv => answers_pure (ifSome_some ⟨hv, nofun⟩)
    · exact answers_none

theorem answers_groupClause (h : level.Answers S) :
    Answers S (groupClause level) (∀ c ∈ ·, HoldsCondition S c) :=
  (answers_tryKeyword (by nofun)).bind fun _ _ => by
    split
    · refine (answers_keyword (by nofun) _).bind fun _ _ =>
        (answers_many (answers_groupCondition? h)).bind fun conditions hc => ?_
      split
      · exact answers_expected _
      · exact answers_pure hc
    · exact answers_pure nofun

theorem answers_havingClause (h : level.Answers S) :
    Answers S (havingClause level) (∀ e ∈ ·, HoldsExpression S e) :=
  (answers_tryKeyword (by nofun)).bind fun _ _ => by
    split
    · refine (answers_many (P := HoldsExpression S) ?_).bind fun conditions hc => ?_
      · refine answers_atConstraint.bind fun _ _ => ?_
        split
        · exact (answers_constraint h).some
        · exact answers_none
      · split
        · exact answers_expected _
        · exact answers_pure hc
    · exact answers_pure nofun

theorem answers_orderCondition? (h : level.Answers S) :
    Answers S (orderCondition? level) (IfSome fun c => HoldsExpression S c.value) := by
  unfold orderCondition?
  rw [h.namespaces]
  refine answers_lexeme fun here _ => ?_
  split
  · exact (answers_skipKeyword rfl (by nofun)).bind fun _ _ => (answers_bracketedExpression h).bind
      fun value hv => answers_pure (ifSome_some (x := OrderCondition.mk value .ascending) hv)
  · exact (answers_skipKeyword rfl (by nofun)).bind fun _ _ => (answers_bracketedExpression h).bind
      fun value hv => answers_pure (ifSome_some (x := OrderCondition.mk value .descending) hv)
  · exact answers_variableCondition.at.bind fun _ hv => answers_pure (ifSome_some hv)
  · refine answers_atConstraint.at.bind fun _ _ => ?_
    split
    · exact (answers_constraint h).bind fun _ hv => answers_pure (ifSome_some hv)
    · exact answers_none

theorem answers_orderClause (h : level.Answers S) :
    Answers S (orderClause level) (∀ c ∈ ·, HoldsExpression S c.value) :=
  (answers_tryKeyword (by nofun)).bind fun _ _ => by
    split
    · refine (answers_keyword (by nofun) _).bind fun _ _ =>
        (answers_many (answers_orderCondition? h)).bind fun conditions hc => ?_
      split
      · exact answers_expected _
      · exact answers_pure hc
    · exact answers_pure nofun

theorem answers_count (clause : CountClause) : Answers S (count clause) fun _ => True :=
  answers_lexeme fun here _ => by
    split
    · split
      · exact (answers_skip rfl).bind fun _ _ => answers_pure trivial
      · exact answers_fail (S.texts.append (S.texts.constant _) (S.texts.constant _))
    · exact answers_expected _

theorem answersAt_countOnce {here : Lexeme} {k : Keyword} (stands : here.keyword? = some k)
    (other : k ≠ .BASE) (clause : CountClause) (known : Option Int) :
    AnswersAt S here (countOnce clause known) fun _ => True := by
  unfold countOnce
  split
  · exact answers_fail (S.texts.append (S.texts.append (S.texts.constant _) (S.texts.constant _))
      (S.texts.constant _))
  · exact (answers_skipKeyword stands other).bind fun _ _ => answers_count clause

theorem answers_bound? (bounds : Bounds) :
    Answers S (bound? bounds) (IfSome fun _ => True) :=
  answers_of_at fun _ => .isAtKeyword
    (fun stands => (answersAt_countOnce stands (by nofun) _ _).bind fun _ _ =>
      answers_pure fun _ _ => trivial)
    (.isAtKeyword
      (fun stands => (answersAt_countOnce stands (by nofun) _ _).bind fun _ _ =>
        answers_pure fun _ _ => trivial)
      answers_none)

theorem answers_modifiers (h : level.Answers S) :
    Answers S (modifiers level) (HoldsModifiers S) :=
  (answers_groupClause h).bind fun _ hg => (answers_havingClause h).bind fun _ hh =>
    (answers_orderClause h).bind fun _ ho =>
      (answers_repeatFrom (fun bounds _ => answers_bound? bounds) trivial).bind fun _ _ =>
        answers_pure ⟨hg, hh, ho⟩

theorem answers_trailingValues :
    Answers S (trailingValues S.namespaces) (tableEverywhere S.checks) :=
  (answers_tryKeyword (by nofun)).bind fun _ _ => by
    split
    · exact answers_inlineData.map fun _ hd => hd
    · exact answers_pure trivial

/-- The query that clauses make up, its result variables taken from its pattern and a table. -/
theorem everywhere_texts_assemble {form : Form} {dataset : List DatasetClause}
    {root : Group} {m : Modifiers} {inScope values : Option InlineData} (span : Span)
    (hf : HoldsForm S form) (hd : ∀ clause ∈ dataset, S.texts.Holds clause.iri)
    (hr : HoldsGroup S root) (hm : HoldsModifiers S m) (hs : tableEverywhere S.checks inScope)
    (hv : tableEverywhere S.checks values) :
    (assemble form dataset root m inScope values span).Everywhere S.checks := by
  refine Query.everywhere_iff.mpr ⟨?_, hf.inside, hr, fun c inside => (hm.groupBy c inside).value,
    hm.having, hm.orderBy, hv⟩
  have weaker := S.implies_texts.together
  have bound := TextClass.keeps_resultVariables hf.names
    (Form.everywhere_together weaker form hf.inside hf.inside)
    (Group.everywhere_together weaker root hr hr) (tableEverywhere_together weaker inScope hs hs)
  refine TextClass.keeps_append.mpr ⟨bound, TextClass.keeps_append.mpr ⟨fun s member => ?_,
    TextClass.keeps_append.mpr ⟨hf.names, fun s member => ?_⟩⟩⟩
  · obtain ⟨clause, inside, rfl⟩ := List.mem_map.mp member
    exact hd clause inside
  · obtain ⟨c, inside, named⟩ := List.mem_filterMap.mp member
    exact (hm.groupBy c inside).name s named

theorem answersAt_subSelect (h : level.Answers S) {here : Lexeme}
    (isSelect : here.keyword? = some .SELECT) :
    AnswersAt S here (subSelect level) (·.Everywhere S.checks) := by
  unfold subSelect
  rw [h.namespaces]
  exact .position fun _ => (answersAt_selectClause h isSelect).bind fun _ hf =>
    (answers_whereClause h).bind fun _ hr => (answers_modifiers h).bind fun _ hm =>
      answers_trailingValues.bind fun _ hv => .position fun _ =>
        answers_pure (everywhere_texts_assemble _ hf nofun hr hm hv hv)

/-! ## Groups -/

/-- A group under construction whose texts are of a class. -/
structure HoldsDraft (S : Scope) (d : Draft) : Prop where
  elements : HoldsElements S d.elements
  children : ∀ g ∈ d.children, HoldsGroup S g
  data : tableEverywhere S.checks d.data

namespace HoldsDraft

variable {d : Draft}

theorem addElements (h : HoldsDraft S d) {elements : List Element}
    (he : HoldsElements S elements) : HoldsDraft S (d.addElements elements) :=
  ⟨List.forall_mem_append.mpr ⟨h.elements, he⟩, h.children, h.data⟩

theorem addChild (h : HoldsDraft S d) {child : Group} (hc : HoldsGroup S child) :
    HoldsDraft S (d.addChild child) :=
  ⟨h.elements, List.forall_mem_append.mpr ⟨h.children, List.forall_mem_singleton.mpr hc⟩, h.data⟩

theorem addData (h : HoldsDraft S d) {data : InlineData} (hd : data.Everywhere S.checks) :
    HoldsDraft S (d.addData data) := by
  unfold Draft.addData
  split
  · exact ⟨h.elements, h.children, hd⟩
  · exact h.addChild ⟨trivial, trivial, trivial, trivial, hd⟩

theorem group (h : HoldsDraft S d) {kind : GroupKind} (hk : kind.Everywhere S.checks)
    (span : Span) : HoldsGroup S (d.group kind span) :=
  ⟨trivial, hk, Element.everywhereAll_iff.mpr h.elements, Group.everywhereAll_iff.mpr h.children,
    h.data⟩

end HoldsDraft

theorem answers_groupOrUnion (h : level.Answers S) :
    Answers S (groupOrUnion level) (HoldsGroup S) := by
  have alternatives : Answers S (moreAlternatives level) (∀ g ∈ ·, HoldsGroup S g) := by
    refine answers_many ((answers_tryKeyword (by nofun)).bind fun _ _ => ?_)
    split
    · exact (h.group .group trivial).some
    · exact answers_none
  refine (h.group .group trivial).bind fun first hfirst => alternatives.bind fun more hmore => ?_
  split
  · exact answers_pure hfirst
  · exact .position fun _ => answers_pure ⟨trivial, trivial, trivial,
      Group.everywhereAll_iff.mpr (List.forall_mem_cons.mpr ⟨hfirst, hmore⟩), trivial⟩

theorem answersAt_filter (h : level.Answers S) {here : Lexeme}
    (isFilter : here.keyword? = some .FILTER) :
    AnswersAt S here (filter level) (·.Everywhere S.checks) :=
  .position fun _ => (answers_skipKeyword isFilter (by nofun)).bind fun _ _ =>
    (answers_constraint h).bind fun _ hc => .position fun _ =>
      answers_pure ⟨TextClass.keeps_nil, hc⟩

theorem answers_bindTarget : Answers S (bindTarget S.namespaces) S.checks.term :=
  answers_lexeme fun here _ => by
    split
    · exact answers_varOrTerm.at
    · exact answers_expected _

theorem answersAt_binding (h : level.Answers S) {here : Lexeme}
    (isBind : here.keyword? = some .BIND) :
    AnswersAt S here (binding level) (·.Everywhere S.checks) := by
  unfold binding
  rw [h.namespaces]
  exact .position fun _ => (answers_skipKeyword isBind (by nofun)).bind fun _ _ =>
    (answers_mark (by nofun) _).bind fun _ _ => (answers_expression h).bind fun _ hv =>
      (answers_keyword (by nofun) _).bind fun _ _ => answers_bindTarget.bind fun _ ht =>
        (answers_mark (by nofun) _).bind fun _ _ => .position fun _ =>
          answers_pure ⟨TextClass.keeps_nil, hv, ht⟩

theorem answers_namedGroup (h : level.Answers S) {kind : Term → GroupKind}
    (hk : ∀ t, S.checks.term t → (kind t).Everywhere S.checks) :
    Answers S (namedGroup level kind) (HoldsGroup S) := by
  unfold namedGroup
  rw [h.namespaces]
  exact answers_varOrIri.bind fun name hname => h.group (kind name) (hk name hname)

theorem answers_serviceGroup (h : level.Answers S) :
    Answers S (serviceGroup level) (HoldsGroup S) :=
  (answers_tryKeyword (by nofun)).bind fun _ _ => answers_namedGroup h fun _ ht => ht

/-- What a token is called is a constant. -/
theorem holds_describe (T : TextClass) (here : Lexeme) : T.Holds here.describe := by
  cases here with
  | symbol s => cases s <;> exact T.constant _
  | _ => exact T.constant _

theorem answers_triplesBlock (h : level.Answers S) :
    Answers S (triplesBlock level) (HoldsElements S) :=
  .drop fun here => answers_atTriples.bind fun _ _ => by
    split
    · refine (answers_triplesSameSubject h).bind fun _ hes =>
        (answers_tryMark (by nofun)).bind fun _ _ => ?_
      split
      · exact answers_pure hes
      · refine answers_atTriples.bind fun _ _ => ?_
        split
        · exact answers_expected _
        · exact answers_pure hes
    · exact answers_fail (S.texts.append (S.texts.append (S.texts.constant _)
        (holds_describe _ here)) (S.texts.constant _))

theorem answers_member? (h : level.Answers S) (d : Draft) (hd : HoldsDraft S d) :
    Answers S (member? level d) (IfSome (HoldsDraft S)) := by
  have child : ∀ {A : Cursor → Prop} {p : Parser Group}, AnswersIf S A p (HoldsGroup S) →
      AnswersIf S A (do return some (d.addChild (← p))) (IfSome (HoldsDraft S)) :=
    fun hp => hp.bind fun _ hg => answers_pure (ifSome_some (hd.addChild hg))
  have element : ∀ {A : Cursor → Prop} {p : Parser Element},
      AnswersIf S A p (·.Everywhere S.checks) →
      AnswersIf S A (do return some (d.addElements [← p])) (IfSome (HoldsDraft S)) :=
    fun hp => hp.bind fun _ he =>
      answers_pure (ifSome_some (hd.addElements (List.forall_mem_singleton.mpr he)))
  unfold member?
  rw [h.namespaces]
  refine answers_lexeme fun here _ => ?_
  split
  · exact answers_none
  · exact answers_none
  · exact (answers_skip rfl).bind fun _ _ => answers_pure (ifSome_some hd)
  · exact child (answers_groupOrUnion h).at
  · exact (answers_skipKeyword rfl (by nofun)).bind fun _ _ => child (h.group .optional trivial)
  · exact (answers_skipKeyword rfl (by nofun)).bind fun _ _ => child (h.group .minus trivial)
  · exact (answers_skipKeyword rfl (by nofun)).bind fun _ _ =>
      child (answers_namedGroup h fun _ ht => ht)
  · exact (answers_skipKeyword rfl (by nofun)).bind fun _ _ => child (answers_serviceGroup h)
  · exact element (answersAt_filter h rfl)
  · exact element (answersAt_binding h rfl)
  · exact (answers_skipKeyword rfl (by nofun)).bind fun _ _ => answers_inlineData.bind
      fun _ hdata => answers_pure (ifSome_some (hd.addData hdata))
  · exact (answers_triplesBlock h).at.bind fun _ hes =>
      answers_pure (ifSome_some (hd.addElements hes))

theorem answers_groupContent (h : level.Answers S) :
    Answers S (groupContent level) (HoldsDraft S) := by
  have fresh : HoldsDraft S {} := ⟨nofun, nofun, trivial⟩
  exact answers_of_at fun _ => .isAtKeyword
    (fun isSelect => .position fun _ => (answersAt_subSelect h isSelect).bind fun _ hq =>
      .position fun _ => answers_pure
        ⟨List.forall_mem_singleton.mpr ⟨TextClass.keeps_nil, hq⟩, nofun, trivial⟩)
    (answers_repeatFrom (answers_member? h) fresh).at

theorem answers_bracedGroup (h : level.Answers S) {kind : GroupKind}
    (hk : kind.Everywhere S.checks) :
    Answers S (bracedGroup level kind) (HoldsGroup S) :=
  .position fun _ => (answers_mark (by nofun) _).bind fun _ _ =>
    (answers_groupContent h).bind fun _ hd => (answers_mark (by nofun) _).bind fun _ _ =>
      .position fun _ => answers_pure (hd.group hk _)

/-- Every level accounts for the answers of its readers, as the one inside it does. -/
theorem answers_ofAllowance (S : Scope) (allowance : Nat) :
    (Level.ofAllowance S.namespaces allowance).Answers S := by
  induction allowance with
  | zero =>
      have tooDeep : S.texts.Holds Malformed.nestingTooDeep.message :=
        S.texts.append (S.texts.append (S.texts.constant _) (S.texts.ofNat _)) (S.texts.constant _)
      exact ⟨rfl, answers_fail tooDeep, fun _ _ => answers_fail tooDeep, answers_fail tooDeep,
        answers_fail tooDeep⟩
  | succ allowance inner =>
      exact ⟨rfl, answers_operandWithin inner, fun _ => answers_bracedGroup inner,
        answersAt_bracketedPath inner, answersAt_bracketedBlankNode inner⟩

/-! ## Bodies -/

structure HoldsBody (S : Scope) (b : Body) : Prop where
  form : HoldsForm S b.form
  dataset : ∀ clause ∈ b.dataset, S.texts.Holds clause.iri
  root : HoldsGroup S b.root

theorem answers_templateOf {elements : List Element} (h : HoldsElements S elements) :
    Answers S (templateOf elements) (∀ t ∈ ·, t.Everywhere S.checks) := by
  induction elements with
  | nil => exact answers_pure (List.forall_mem_nil _)
  | cons e rest ih =>
      rw [HoldsElements, List.forall_mem_cons] at h
      cases e with
      | triple t =>
          exact (ih h.2).bind fun _ hmore =>
            answers_pure (List.forall_mem_cons.mpr ⟨h.1.2, hmore⟩)
      | _ => exact answers_fail (S.texts.constant _)

theorem answersAt_selectBody (h : level.Answers S) {here : Lexeme}
    (isSelect : here.keyword? = some .SELECT) :
    AnswersAt S here (selectBody level) (HoldsBody S) := by
  unfold selectBody
  rw [h.namespaces]
  exact (answersAt_selectClause h isSelect).bind fun _ hf => answers_datasetClauses.bind
    fun _ hd => (answers_whereClause h).bind fun _ hr => answers_pure ⟨hf, hd, hr⟩

theorem answersAt_askBody (h : level.Answers S) {here : Lexeme}
    (isAsk : here.keyword? = some .ASK) :
    AnswersAt S here (askBody level) (HoldsBody S) := by
  unfold askBody
  rw [h.namespaces]
  exact (answers_skipKeyword isAsk (by nofun)).bind fun _ _ => answers_datasetClauses.bind
    fun _ hd => (answers_whereClause h).bind fun _ hr =>
      answers_pure ⟨⟨TextClass.keeps_nil, trivial⟩, hd, hr⟩

theorem answersAt_describeBody (h : level.Answers S) {here : Lexeme}
    (isDescribe : here.keyword? = some .DESCRIBE) :
    AnswersAt S here (describeBody level) (HoldsBody S) := by
  unfold describeBody
  rw [h.namespaces]
  refine (answersAt_describeClause isDescribe).bind fun _ hf => answers_datasetClauses.bind
    fun _ hd => .drop fun _ => .drop fun _ => ?_
  split
  · exact (answers_whereClause h).bind fun _ hr => answers_pure ⟨hf, hd, hr⟩
  · exact answers_pure ⟨hf, hd, trivial, trivial, trivial, trivial, trivial⟩

theorem answersAt_constructBody (h : level.Answers S) :
    AnswersAt S (.symbol .lbrace) (constructBody level) (HoldsBody S) := by
  unfold constructBody
  rw [h.namespaces]
  exact (answers_skip rfl).bind fun _ _ => (answers_template h).bind fun _ hes =>
    answers_datasetClauses.bind fun _ hd => (answers_whereClause h).bind fun _ hr =>
      (answers_templateOf hes).bind fun _ ht =>
        answers_pure ⟨⟨TextClass.keeps_nil, ht⟩, hd, hr⟩

theorem answers_constructWhereBody (h : level.Answers S) :
    Answers S (constructWhereBody level) (HoldsBody S) := by
  unfold constructWhereBody
  rw [h.namespaces]
  exact answers_datasetClauses.bind fun _ hd => (answers_keyword (by nofun) _).bind fun _ _ =>
    .position fun _ => (answers_mark (by nofun) _).bind fun _ _ =>
      (answers_template h).bind fun _ hes => .position fun _ =>
        (answers_templateOf hes).bind fun _ ht => answers_pure
          ⟨⟨TextClass.keeps_nil, ht⟩, hd, trivial, trivial, Element.everywhereAll_iff.mpr hes,
            trivial, trivial⟩

theorem answers_body (h : level.Answers S) : Answers S (body level) (HoldsBody S) :=
  answers_lexeme fun here _ => by
    split
    · next isSelect => exact answersAt_selectBody h isSelect
    · next isConstruct =>
      exact (answers_skipKeyword isConstruct (by nofun)).bind fun _ _ =>
        answers_isAt (answersAt_constructBody h) (answers_constructWhereBody h)
    · next isDescribe => exact answersAt_describeBody h isDescribe
    · next isAsk => exact answersAt_askBody h isAsk
    · exact answers_expected _

/-- The decoded text of a token that can be read. -/
theorem holds_text {T : TextClass} {here : Lexeme} (h : T.Keeps here.strings)
    (real : ∀ fault, here ≠ .invalid fault) : T.Holds here.text := by
  cases here with
  | prefixedName label localName =>
      have colon : T.Holds (Byte.colon :: localName) :=
        T.append (T.constant ":") (h localName (by simp [Lexeme.strings]))
      exact T.append (h label (by simp [Lexeme.strings])) colon
  | symbol s => exact T.constant _
  | endOfInput => exact TextClass.holds_nil
  | invalid fault => exact absurd rfl (real fault)
  | _ => exact TextClass.keeps_singleton.mp h

theorem answers_endOfText : Answers S endOfText fun _ => True :=
  answers_lexeme fun here keeps => by
    split
    · exact answers_pure trivial
    · intro c _ same
      refine accounted_error fun real => S.texts.append (S.texts.append (S.texts.constant _) ?_)
        (S.texts.constant _)
      exact holds_text keeps (same ▸ real)

/-- The query behind a prologue, up to the end of the text. -/
theorem answers_queryBehind : Answers S (queryBehind S.namespaces) fun unit =>
    unit.namespaces = S.namespaces ∧ unit.query.Everywhere S.checks := by
  have level := answers_ofAllowance S maxNesting
  exact (answers_body level).bind fun _ hb => (answers_modifiers level).bind fun _ hm =>
    answers_trailingValues.bind fun _ hv => answers_endOfText.bind fun _ _ => .position fun _ =>
      answers_pure ⟨rfl, everywhere_texts_assemble _ hb.form hb.dataset hb.root hm trivial hv⟩

end SparqlMetrics.Grammar
