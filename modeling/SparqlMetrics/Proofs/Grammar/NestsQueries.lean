import SparqlMetrics.Proofs.Grammar.NestsExpressions
import SparqlMetrics.Grammar.Unit

/-!
# How braces nest in queries

A group and a template close the brace behind which they are read, so by induction on the nesting
that is still allowed the readers of every level pass over braces that pair up, and so does the
reader of a whole text. Main statements: `Grammar.nests_ofAllowance`, `Grammar.nests_queryUnit`.
-/
namespace SparqlMetrics.Grammar

open SparqlMetrics.Parser

variable {A : Cursor → Prop} {ns : Namespaces} {level : Level}

/-! ## Clauses -/

theorem nestsAt_namedProjection (h : level.Nests) :
    NestsAt (.symbol .lparen) (namedProjection level) :=
  .position fun _ => (nests_skip rfl).bind fun _ => (nests_expression h).bind fun _ =>
    (nests_keyword (by nofun)).bind fun _ => (nests_variableName (by nofun)).bind fun _ =>
      (nests_mark rfl (by nofun)).bind fun _ => .position fun _ => nests_pure

theorem nests_projection? (h : level.Nests) : Nests (projection? level) :=
  leaves_token fun t => by
    split
    · next same => exact (nests_skip (same ▸ rfl)).bind fun _ => nests_pure
    · next same =>
      rw [same]
      exact (nestsAt_namedProjection h).map _
    · exact nests_pure

theorem nests_selectModifier : Nests selectModifier :=
  nests_tryKeyword.bind fun _ => by
    split
    · exact nests_pure
    · refine nests_tryKeyword.bind fun _ => ?_
      split
      · exact nests_pure
      · exact nests_pure

theorem nests_selectClause (h : level.Nests) :
    NestsIf (·.token.lexeme.keyword? = some .SELECT) (selectClause level) :=
  nests_skipKeyword.bind fun _ => nests_selectModifier.bind fun _ =>
    (nests_tryMark rfl).bind fun _ => by
      split
      · exact nests_pure
      · refine (nests_many (nests_projection? h)).bind fun items => ?_
        split
        · exact leaves_expected (by nofun)
        · exact nests_pure

theorem nests_atTriples : NestsIf A atTriples :=
  .drop fun _ => .followingLexeme fun _ => nests_pure

theorem nests_templateTriples? (h : level.Nests) (awaited : Bool) :
    Nests (templateTriples? level awaited) := by
  unfold templateTriples?
  refine .drop fun _ => ?_
  split
  · exact nests_pure
  · refine nests_atTriples.bind fun _ => ?_
    split
    · exact (nests_triplesSameSubject h).bind fun _ => (nests_tryMark rfl).bind fun _ => nests_pure
    · exact leaves_expected (by nofun)

/-- A template closes the brace in front of it. -/
theorem closes_template (h : level.Nests) : Closes (template level) := by
  refine Nests.closes (nests_repeatFrom fun state => ?_) fun _ =>
    (closes_mark _).bind fun _ => nests_pure
  refine (nests_templateTriples? h state.1).bind fun found => ?_
  split
  · exact nests_pure
  · exact nests_pure

theorem nests_describeTarget? : Nests (describeTarget? ns) :=
  leaves_lexeme fun here => by
    split
    · exact nests_varOrIri.at.map _
    · exact nests_varOrIri.at.map _
    · exact nests_varOrIri.at.map _
    · exact nests_pure

theorem nests_describeClause :
    NestsIf (·.token.lexeme.keyword? = some .DESCRIBE) (describeClause ns) :=
  nests_skipKeyword.bind fun _ => (nests_tryMark rfl).bind fun _ => by
    split
    · exact nests_pure
    · refine (nests_many nests_describeTarget?).bind fun targets => ?_
      split
      · exact leaves_expected (by nofun)
      · exact nests_pure

theorem nests_datasetClause? : Nests (datasetClause? ns) :=
  nests_tryKeyword.bind fun _ => by
    split
    · exact nests_tryKeyword.bind fun _ => nests_iri fun _ => nests_pure
    · exact nests_pure

theorem nests_datasetClauses : Nests (datasetClauses ns) := nests_many nests_datasetClause?

theorem nests_whereClause (h : level.Nests) : NestsIf A (whereClause level) :=
  nests_tryKeyword.bind fun _ => leaves_isAt (h.group .group).at (leaves_expected (by nofun))

theorem nests_variableCondition : NestsIf A (variableCondition ns) :=
  nests_varOrTerm.at.bind fun _ => nests_pure

theorem nests_conditionName? : Nests conditionName? :=
  nests_tryKeyword.bind fun _ => by
    split
    · exact (nests_variableName (by nofun)).map _
    · exact nests_pure

theorem nests_groupCondition? (h : level.Nests) : Nests (groupCondition? level) :=
  leaves_lexeme fun here => by
    split
    · exact nests_variableCondition.bind fun _ => nests_pure
    · exact (nests_skip rfl).bind fun _ => (nests_expression h).bind fun _ =>
        nests_conditionName?.bind fun _ => (nests_mark rfl (by nofun)).bind fun _ => nests_pure
    · refine nests_atConstraint.bind fun _ => ?_
      split
      · exact (nests_constraint h).bind fun _ => nests_pure
      · exact nests_pure

theorem nests_groupClause (h : level.Nests) : Nests (groupClause level) :=
  nests_tryKeyword.bind fun _ => by
    split
    · refine (nests_keyword (by nofun)).bind fun _ =>
        (nests_many (nests_groupCondition? h)).bind fun conditions => ?_
      split
      · exact leaves_expected (by nofun)
      · exact nests_pure
    · exact nests_pure

theorem nests_havingClause (h : level.Nests) : Nests (havingClause level) := by
  have condition : Nests (do
      if ← atConstraint then some <$> constraint level else pure none) :=
    nests_atConstraint.bind fun _ => by
      split
      · exact (nests_constraint h).map _
      · exact nests_pure
  refine nests_tryKeyword.bind fun _ => ?_
  split
  · refine (nests_many condition).bind fun conditions => ?_
    split
    · exact leaves_expected (by nofun)
    · exact nests_pure
  · exact nests_pure

theorem nests_orderCondition? (h : level.Nests) : Nests (orderCondition? level) :=
  leaves_lexeme fun here => by
    split
    · exact (nests_skip rfl).bind fun _ => (nests_bracketedExpression h).bind fun _ => nests_pure
    · exact (nests_skip rfl).bind fun _ => (nests_bracketedExpression h).bind fun _ => nests_pure
    · exact nests_variableCondition.bind fun _ => nests_pure
    · refine nests_atConstraint.bind fun _ => ?_
      split
      · exact (nests_constraint h).bind fun _ => nests_pure
      · exact nests_pure

theorem nests_orderClause (h : level.Nests) : Nests (orderClause level) :=
  nests_tryKeyword.bind fun _ => by
    split
    · refine (nests_keyword (by nofun)).bind fun _ =>
        (nests_many (nests_orderCondition? h)).bind fun conditions => ?_
      split
      · exact leaves_expected (by nofun)
      · exact nests_pure
    · exact nests_pure

theorem nests_count (clause : CountClause) : Nests (count clause) :=
  leaves_lexeme fun here => by
    split
    · split
      · exact (nests_skip rfl).bind fun _ => nests_pure
      · exact leaves_fail (by nofun)
    · exact leaves_expected (by cases clause <;> nofun)

theorem nests_countOnce {k : Keyword} (clause : CountClause) (known : Option Int) :
    NestsIf (·.token.lexeme.keyword? = some k) (countOnce clause known) := by
  unfold countOnce
  split
  · exact leaves_fail (by nofun)
  · exact nests_skipKeyword.bind fun _ => nests_count clause

theorem nests_bound? (bounds : Bounds) : Nests (bound? bounds) :=
  leaves_isAtKeyword ((nests_countOnce .limit _).bind fun _ => nests_pure)
    (leaves_isAtKeyword ((nests_countOnce .offset _).bind fun _ => nests_pure) nests_pure)

theorem nests_modifiers (h : level.Nests) : Nests (modifiers level) :=
  (nests_groupClause h).bind fun _ => (nests_havingClause h).bind fun _ =>
    (nests_orderClause h).bind fun _ => (nests_repeatFrom nests_bound?).bind fun _ => nests_pure

theorem nests_trailingValues : Nests (trailingValues ns) :=
  nests_tryKeyword.bind fun _ => by
    split
    · exact nests_inlineData.map _
    · exact nests_pure

theorem nests_subSelect (h : level.Nests) :
    NestsIf (·.token.lexeme.keyword? = some .SELECT) (subSelect level) :=
  .position fun _ => (nests_selectClause h).bind fun _ => (nests_whereClause h).bind fun _ =>
    (nests_modifiers h).bind fun _ => nests_trailingValues.bind fun _ => .position fun _ =>
      nests_pure

/-! ## Groups -/

theorem nests_groupOrUnion (h : level.Nests) : Nests (groupOrUnion level) := by
  have alternatives : Nests (moreAlternatives level) := by
    refine nests_many (nests_tryKeyword.bind fun _ => ?_)
    split
    · exact (h.group .group).map _
    · exact nests_pure
  refine (h.group .group).bind fun first => alternatives.bind fun more => ?_
  split
  · exact nests_pure
  · exact .position fun _ => nests_pure

theorem nests_filter (h : level.Nests) :
    NestsIf (·.token.lexeme.keyword? = some .FILTER) (filter level) :=
  .position fun _ => nests_skipKeyword.bind fun _ => (nests_constraint h).bind fun _ =>
    .position fun _ => nests_pure

theorem nests_bindTarget : Nests (bindTarget ns) :=
  leaves_lexeme fun here => by
    split
    · exact nests_varOrTerm.at
    · exact leaves_expected (by nofun)

theorem nests_binding (h : level.Nests) :
    NestsIf (·.token.lexeme.keyword? = some .BIND) (binding level) :=
  .position fun _ => nests_skipKeyword.bind fun _ => (nests_mark rfl (by nofun)).bind fun _ =>
    (nests_expression h).bind fun _ => (nests_keyword (by nofun)).bind fun _ =>
      nests_bindTarget.bind fun _ => (nests_mark rfl (by nofun)).bind fun _ => .position fun _ =>
        nests_pure

theorem nests_namedGroup (h : level.Nests) (kind : Term → GroupKind) :
    Nests (namedGroup level kind) :=
  nests_varOrIri.bind fun name => h.group (kind name)

theorem nests_serviceGroup (h : level.Nests) : Nests (serviceGroup level) :=
  nests_tryKeyword.bind fun _ => nests_namedGroup h _

theorem nests_triplesBlock (h : level.Nests) : Nests (triplesBlock level) :=
  .drop fun here => nests_atTriples.bind fun _ => by
    split
    · refine (nests_triplesSameSubject h).bind fun _ => (nests_tryMark rfl).bind fun _ => ?_
      split
      · exact nests_pure
      · refine nests_atTriples.bind fun _ => ?_
        split
        · exact leaves_expected (by nofun)
        · exact nests_pure
    · exact leaves_fail (by nofun)

theorem nests_member? (h : level.Nests) (d : Draft) : Nests (member? level d) := by
  have child : ∀ {A : Cursor → Prop} {p : Parser Group}, NestsIf A p →
      NestsIf A (do return some (d.addChild (← p))) := fun hp => hp.bind fun _ => nests_pure
  have element : ∀ {A : Cursor → Prop} {p : Parser Element}, NestsIf A p →
      NestsIf A (do return some (d.addElements [← p])) := fun hp => hp.bind fun _ => nests_pure
  refine leaves_lexeme fun here => ?_
  split
  · exact nests_pure
  · exact nests_pure
  · exact (nests_skip rfl).bind fun _ => nests_pure
  · exact child (nests_groupOrUnion h).at
  · exact (nests_skip rfl).bind fun _ => child (h.group .optional)
  · exact (nests_skip rfl).bind fun _ => child (h.group .minus)
  · exact (nests_skip rfl).bind fun _ => child (nests_namedGroup h _)
  · exact (nests_skip rfl).bind fun _ => child (nests_serviceGroup h)
  · exact element ((nests_filter h).weaken fun _ same => same ▸ rfl)
  · exact element ((nests_binding h).weaken fun _ same => same ▸ rfl)
  · exact (nests_skip rfl).bind fun _ => nests_inlineData.bind fun _ => nests_pure
  · exact (nests_triplesBlock h).at.bind fun _ => nests_pure

theorem nests_groupContent (h : level.Nests) : Nests (groupContent level) :=
  leaves_isAtKeyword
    (.position fun _ => (nests_subSelect h).bind fun _ => .position fun _ => nests_pure)
    (nests_repeatFrom (nests_member? h))

theorem nests_bracedGroup (h : level.Nests) (kind : GroupKind) : Nests (bracedGroup level kind) :=
  .position fun _ => nests_braces (by nofun) fun _ => (nests_groupContent h).closes fun _ =>
    (closes_mark _).bind fun _ => .position fun _ => nests_pure

/-- The readers of every level pass over braces that pair up, as those of the one inside it do. -/
theorem nests_ofAllowance (ns : Namespaces) (allowance : Nat) :
    (Level.ofAllowance ns allowance).Nests := by
  induction allowance with
  | zero =>
      exact ⟨leaves_fail (by nofun), fun _ => leaves_fail (by nofun), leaves_fail (by nofun),
        leaves_fail (by nofun)⟩
  | succ allowance inner =>
      exact ⟨nests_operandWithin inner, nests_bracedGroup inner, nestsAt_bracketedPath inner,
        nestsAt_bracketedBlankNode inner⟩

/-! ## Texts -/

theorem nests_templateOf (elements : List Element) : Nests (templateOf elements) := by
  induction elements with
  | nil => exact nests_pure
  | cons e rest ih =>
      cases e with
      | triple t => exact ih.bind fun _ => nests_pure
      | _ => exact leaves_fail (by nofun)

theorem nests_selectBody (h : level.Nests) :
    NestsIf (·.token.lexeme.keyword? = some .SELECT) (selectBody level) :=
  (nests_selectClause h).bind fun _ => nests_datasetClauses.bind fun _ =>
    (nests_whereClause h).bind fun _ => nests_pure

theorem nests_askBody (h : level.Nests) :
    NestsIf (·.token.lexeme.keyword? = some .ASK) (askBody level) :=
  nests_skipKeyword.bind fun _ => nests_datasetClauses.bind fun _ =>
    (nests_whereClause h).bind fun _ => nests_pure

theorem nests_describeBody (h : level.Nests) :
    NestsIf (·.token.lexeme.keyword? = some .DESCRIBE) (describeBody level) :=
  nests_describeClause.bind fun _ => nests_datasetClauses.bind fun _ =>
    .drop fun _ => .drop fun _ => by
      split
      · exact (nests_whereClause h).bind fun _ => nests_pure
      · exact nests_pure

theorem nestsAt_constructBody (h : level.Nests) :
    NestsAt (.symbol .lbrace) (constructBody level) :=
  leaves_skipMark.opens fun _ => (closes_template h).bind fun _ => nests_datasetClauses.bind
    fun _ => (nests_whereClause h).bind fun _ => (nests_templateOf _).bind fun _ => nests_pure

theorem nests_constructWhereBody (h : level.Nests) : Nests (constructWhereBody level) :=
  nests_datasetClauses.bind fun _ => (nests_keyword (by nofun)).bind fun _ => .position fun _ =>
    nests_braces (by nofun) fun _ => (closes_template h).bind fun _ => .position fun _ =>
      (nests_templateOf _).bind fun _ => nests_pure

theorem nests_body (h : level.Nests) : Nests (body level) :=
  leaves_lexeme fun here => by
    split
    · next isSelect => exact (nests_selectBody h).weaken fun _ same => same ▸ isSelect
    · next isConstruct =>
      exact (nests_skip (Lexeme.isInner_of_keyword? isConstruct)).bind fun _ =>
        leaves_isAt (nestsAt_constructBody h) (nests_constructWhereBody h)
    · next isDescribe => exact (nests_describeBody h).weaken fun _ same => same ▸ isDescribe
    · next isAsk => exact (nests_askBody h).weaken fun _ same => same ▸ isAsk
    · exact leaves_expected (by nofun)

theorem nests_endOfText : Nests endOfText :=
  leaves_lexeme fun here => by
    split
    · exact nests_pure
    · exact leaves_fail (by nofun)

theorem nests_declaredIri {missing : Malformed} (other : missing ≠ .expected .closeGroup) :
    Nests (declaredIri ns missing) :=
  leaves_lexeme fun here => by
    split
    · exact nests_iri fun _ => nests_pure
    · exact leaves_fail other

theorem nests_declaredLabel : Nests declaredLabel :=
  leaves_lexeme fun here => by
    split
    · next declared =>
      obtain ⟨_, _, rfl⟩ := prefixedName_of_declaredLabel? declared
      exact (nests_skip rfl).bind fun _ => nests_pure
    · exact leaves_expected (by nofun)

theorem nests_declaration? (ns : Namespaces) : Nests (declaration? ns) :=
  nests_tryKeyword.bind fun _ => by
    split
    · exact (nests_declaredIri (by nofun)).bind fun _ => nests_pure
    · refine nests_tryKeyword.bind fun _ => ?_
      split
      · exact nests_declaredLabel.bind fun _ => (nests_declaredIri (by nofun)).bind fun _ =>
          nests_pure
      · exact nests_pure

/-- The braces that a reader of a whole text passes over pair up. -/
theorem nests_queryUnit : Nests queryUnit :=
  (nests_repeatFrom nests_declaration?).bind fun ns => by
    have level := nests_ofAllowance ns maxNesting
    exact (nests_body level).bind fun _ => (nests_modifiers level).bind fun _ =>
      nests_trailingValues.bind fun _ => nests_endOfText.bind fun _ => .position fun _ =>
        nests_pure

end SparqlMetrics.Grammar
