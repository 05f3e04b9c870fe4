import SparqlMetrics.Grammar.Unit
import SparqlMetrics.Proofs.Grammar.BracedTriples

/-!
# Expressions, clauses and groups up to a closing brace

The readers of expressions, of the clauses of a nested selection and of groups read the same in front
of a closing brace as in front of the end when the readers one level further in do, so the levels do,
by induction on the nesting that is still allowed. Main statements: `inBraces_subSelect`,
`inBraces_ofAllowance`.
-/
namespace SparqlMetrics.Grammar

open SparqlMetrics.Parser

variable {ns : Namespaces} {level : Level} {p q : Parser Expression} {β : Type} {m : β → Nat}

/-! ## Expressions -/

/-- Whether neither a closing brace nor the end is an operator of a class. -/
structure EndsBefore (isOperator : Lexeme → Bool) : Prop where
  brace : isOperator (.symbol .rbrace) = false
  last : isOperator .endOfInput = false

theorem inBraces_extendBy {isOperator : Lexeme → Bool} (ends : EndsBefore isOperator)
    (h : InBraces (fun _ => 1) p q) (left : Expression) :
    InBraces perItem (extendBy isOperator p left) (extendBy isOperator q left) := by
  refine inBraces_lexeme (fun here => ?_) fun here alike => ?_
  · cases isOperator here with
    | true =>
        have node : ∀ right, InBraces (fun _ => 0) (binaryNode here.text left right)
            (binaryNode here.text left right) := fun _ => inBraces_position fun _ => inBraces_pure rfl
        exact inBraces_skip.at.bind fun _ => h.bind fun right => (node right).itemBehind
    | false => exact inBraces_pure rfl
  · rw [alike.answer (f := isOperator) (ends.brace.trans ends.last.symm), ends.last]
    exact inBraces_pure rfl

theorem inBraces_chain {isOperator : Lexeme → Bool} (ends : EndsBefore isOperator)
    (h : InBraces (fun _ => 1) p q) :
    InBraces (fun _ => 1) (chain isOperator p) (chain isOperator q) :=
  h.bind fun first => inBraces_repeatFrom (inBraces_extendBy ends h) first

theorem inBraces_sum (h : level.InBraces) :
    InBraces (fun _ => 1) (sum level) (sum level) :=
  inBraces_chain ⟨rfl, rfl⟩ (inBraces_chain ⟨rfl, rfl⟩ h.operand)

theorem inBraces_moreExpressions (h : InBraces (fun _ => 1) p q) :
    InBraces (fun _ => 0) (moreExpressions p) (moreExpressions q) :=
  (inBraces_markItem (by nofun) h.free).many

theorem inBraces_expressionList (h : InBraces (fun _ => 1) p q) :
    InBraces (fun _ => 0) (expressionList p) (expressionList q) := by
  refine inBraces_isAt (by nofun) (inBraces_pure rfl) ?_
  exact h.free.bind fun _ => (inBraces_moreExpressions h).bind fun _ => inBraces_pure rfl

theorem inBraces_membership? : InBraces (fun _ => 0) membership? membership? := by
  refine inBraces_isAtKeyword (inBraces_pure rfl) ?_
  refine inBraces_isAtKeyword ?_ ?_
  · refine inBraces_following rfl fun next => ?_
    exact inBraces_ite (fun _ => inBraces_pure rfl) fun _ => inBraces_pure rfl
  · refine inBraces_following rfl fun next => ?_
    exact inBraces_ite (fun _ => inBraces_pure rfl) fun _ => inBraces_pure rfl

theorem inBraces_memberList (h : InBraces (fun _ => 1) p q) (negated : Bool) (left : Expression) :
    InBraces (fun _ => 0) (memberList p negated left) (memberList q negated left) := by
  have list : InBraces (fun _ => 0)
      (do
        skip
        mark .lparen .openIn
        let items ← expressionList p
        mark .rparen .closeIn
        pure (Expression.member negated (left :: items) ⟨left.span.start, ← position⟩))
      (do
        skip
        mark .lparen .openIn
        let items ← expressionList q
        mark .rparen .closeIn
        pure (Expression.member negated (left :: items) ⟨left.span.start, ← position⟩)) :=
    inBraces_skip.bind fun _ => (inBraces_mark _ _).free.bind fun _ =>
      (inBraces_expressionList h).bind fun _ => (inBraces_mark _ _).free.bind fun _ =>
        inBraces_position fun _ => inBraces_pure rfl
  unfold memberList
  exact inBraces_ite (fun _ => inBraces_skip.bind fun _ => list) fun _ => list

theorem inBraces_relational (h : level.InBraces) (he : InBraces (fun _ => 1) p q) :
    InBraces (fun _ => 1) (relational level p) (relational level q) :=
  (inBraces_sum h).bind fun left =>
    (inBraces_extendBy ⟨rfl, rfl⟩ (inBraces_sum h) left).bind fun found => by
      cases found with
      | some comparison => exact inBraces_pure rfl
      | none =>
          refine inBraces_membership?.bind fun test => ?_
          cases test with
          | some negated => exact inBraces_memberList he negated left
          | none => exact inBraces_pure rfl

/-- An expression is read alike when its membership lists may nest more. -/
theorem inBraces_expressionUpTo (h : level.InBraces) {bound bound' : Nat} (le : bound ≤ bound') :
    InBraces (fun _ => 1) (expressionUpTo level bound') (expressionUpTo level bound) := by
  induction bound generalizing bound' with
  | zero => exact inBraces_expected _ _
  | succ bound ih =>
      obtain ⟨bound', rfl⟩ : ∃ n, bound' = n + 1 := ⟨bound' - 1, by omega⟩
      exact inBraces_chain ⟨rfl, rfl⟩
        (inBraces_chain ⟨rfl, rfl⟩ (inBraces_relational h (ih (Nat.le_of_succ_le_succ le))))

theorem inBraces_expression (h : level.InBraces) :
    InBraces (fun _ => 1) (expression level) (expression level) :=
  inBraces_remaining fun _ _ le => (inBraces_expressionUpTo h (Nat.succ_le_succ le)).at

theorem inBraces_bracketedExpression (h : level.InBraces) :
    InBraces (fun _ => 1) (bracketedExpression level) (bracketedExpression level) :=
  (inBraces_mark _ _).bind fun _ => (inBraces_expression h).free.bind fun _ =>
    (inBraces_mark _ _).free.bind fun _ => inBraces_pure rfl

theorem inBraces_callArguments (h : level.InBraces) :
    InBraces (fun _ => 0) (callArguments level) (callArguments level) :=
  (inBraces_expressionList (inBraces_expression h)).bind fun _ =>
    (inBraces_mark _ _).free.bind fun _ => inBraces_pure rfl

theorem inBraces_builtinCall (h : level.InBraces) (name : Text) (start : Nat) :
    InBraces (fun _ => 1) (builtinCall level name start) (builtinCall level name start) :=
  (inBraces_mark _ _).bind fun _ => (inBraces_callArguments h).bind fun _ =>
    inBraces_position fun _ => inBraces_pure rfl

theorem inBraces_aggregateArgument (h : level.InBraces) (name : Text) :
    InBraces (fun _ => 0) (aggregateArgument level name) (aggregateArgument level name) := by
  have one : InBraces (fun _ => 0) (do pure (false, [← expression level]))
      (do pure (false, [← expression level])) :=
    (inBraces_expression h).free.bind fun _ => inBraces_pure rfl
  unfold aggregateArgument
  refine inBraces_isAt (by nofun) ?_ ?_
  · exact inBraces_ite (fun _ => inBraces_skip.at.bind fun _ => inBraces_pure rfl) fun _ => one.at
  · rw [Bool.and_false]
    exact one

theorem inBraces_separatorText :
    InBraces (fun _ => 0)
      (do
        mark .equal .equalAfterSeparator
        match ← lexeme with
        | .string value _ =>
          skip
          pure (some value)
        | _ => expected .separatorString)
      (do
        mark .equal .equalAfterSeparator
        match ← lexeme with
        | .string value _ =>
          skip
          pure (some value)
        | _ => expected .separatorString) := by
  refine (inBraces_mark _ _).free.bind fun _ => ?_
  refine inBraces_opening (fun here => ?_) fun p => inBraces_expected p _
  split
  · exact inBraces_skip.at.bind fun _ => inBraces_pure rfl
  · exact inBraces_expected _ _

theorem inBraces_separator? (name : Text) :
    InBraces (fun _ => 0) (separator? name) (separator? name) := by
  unfold separator?
  refine inBraces_isAt (by nofun) ?_ ?_
  · refine inBraces_ite (fun _ => inBraces_skip.at.bind fun _ => ?_) fun _ => inBraces_pure rfl
    refine inBraces_opening (fun here => ?_) fun p _ _ _ _ _ _ read => nomatch read
    split
    · split
      · exact inBraces_skip.at.bind fun _ => inBraces_separatorText
      · exact fun _ _ _ _ _ _ read => nomatch read
    · exact fun _ _ _ _ _ _ read => nomatch read
  · rw [Bool.and_false]
    exact inBraces_pure rfl

theorem inBraces_aggregateCall (h : level.InBraces) (name : Text) (start : Nat) :
    InBraces (fun _ => 1) (aggregateCall level name start) (aggregateCall level name start) :=
  (inBraces_mark _ _).bind fun _ => (inBraces_tryKeyword _).free.bind fun _ =>
    (inBraces_aggregateArgument h name).bind fun _ => (inBraces_separator? name).bind fun _ =>
      (inBraces_mark _ _).free.bind fun _ => inBraces_position fun _ => inBraces_pure rfl

theorem inBraces_namedCall (h : level.InBraces) (spelled : Text) :
    InBraces (fun _ => 1) (namedCall level spelled) (namedCall level spelled) :=
  inBraces_position fun start => inBraces_following rfl fun _ =>
    inBraces_ite (fun _ => inBraces_skip.bind fun _ => inBraces_ite
      (fun _ => inBraces_aggregateCall h _ start) fun _ => inBraces_builtinCall h _ start)
      fun _ => inBraces_fail _ _

theorem inBraces_iriExpression (h : level.InBraces) :
    InBraces (fun _ => 1) (iriExpression level) (iriExpression level) :=
  inBraces_position fun _ => inBraces_iriTerm.bind fun _ =>
    (inBraces_tryMark (by nofun)).free.bind fun _ => inBraces_ite
      (fun _ => (inBraces_tryKeyword _).free.bind fun _ => (inBraces_callArguments h).bind
        fun _ => inBraces_position fun _ => inBraces_pure rfl)
      fun _ => inBraces_position fun _ => inBraces_pure rfl

theorem inBraces_existsTest (h : level.InBraces) (negated : Bool) (start : Nat) :
    InBraces (fun _ => 1) (existsTest level negated start) (existsTest level negated start) :=
  inBraces_skip.bind fun _ => (h.group .group).bind fun _ => inBraces_position
    fun _ => inBraces_pure rfl

theorem inBraces_termExpression :
    InBraces (fun _ => 1) (termExpression level) (termExpression level) :=
  inBraces_position fun _ => inBraces_varOrTerm.bind fun _ => inBraces_position
    fun _ => inBraces_pure rfl

theorem inBraces_primaryExpression (h : level.InBraces) :
    InBraces (fun _ => 1) (primaryExpression level) (primaryExpression level) :=
  inBraces_position fun start => by
    refine inBraces_opening (fun here => ?_) fun p => inBraces_expected p _
    split
    · exact (inBraces_bracketedExpression h).at
    · exact inBraces_skip.at.bind fun _ => inBraces_isAtKeyword
        (inBraces_existsTest h true start).at (inBraces_expected _ _)
    · exact (inBraces_existsTest h false start).at
    · exact (inBraces_namedCall h _).at
    · exact (inBraces_iriExpression h).at
    · exact (inBraces_iriExpression h).at
    · exact inBraces_termExpression.at
    · exact inBraces_termExpression.at
    · exact inBraces_termExpression.at
    · exact inBraces_termExpression.at
    · exact inBraces_termExpression.at
    · exact inBraces_expected _ _

theorem inBraces_operandWithin (h : level.InBraces) :
    InBraces (fun _ => 1) (operandWithin level) (operandWithin level) :=
  inBraces_position fun _ => by
    refine inBraces_stopping (fun here => ?_) rfl (inBraces_primaryExpression h)
    exact inBraces_ite (fun _ => inBraces_skip.at.bind fun _ => h.operand.bind fun _ =>
      inBraces_position fun _ => inBraces_pure rfl) fun _ => (inBraces_primaryExpression h).at

theorem startsConstraint_next (here : Lexeme) :
    startsConstraint here (.symbol .rbrace) = startsConstraint here .endOfInput := by
  rw [startsConstraint.eq_def, startsConstraint.eq_def]
  split <;> rfl

theorem inBraces_atConstraint {f g : Bool → Parser β} (yes : InBraces m (f true) (g true))
    (no : InBraces m (f false) (g false)) :
    InBraces m (atConstraint >>= f) (atConstraint >>= g) :=
  inBraces_opens (fun _ => rfl) (fun _ => rfl) startsConstraint_next yes no

theorem inBraces_constraint (h : level.InBraces) :
    InBraces (fun _ => 1) (constraint level) (constraint level) :=
  inBraces_atConstraint (inBraces_primaryExpression h) (inBraces_expected _ _)

/-! ## Clauses -/

theorem inBraces_namedProjection (h : level.InBraces) :
    InBraces (fun _ => 1) (namedProjection level) (namedProjection level) :=
  inBraces_position fun _ => inBraces_skip.bind fun _ => (inBraces_expression h).bind fun _ =>
    (inBraces_keyword _ _).free.bind fun _ => (inBraces_variableName _).free.bind fun _ =>
      (inBraces_mark _ _).free.bind fun _ => inBraces_position fun _ => inBraces_pure rfl

theorem inBraces_projection? (h : level.InBraces) :
    InBraces perItem (projection? level) (projection? level) := by
  refine inBraces_token (fun t => ?_) fun t _ _ alike => ?_
  · split
    · exact inBraces_pass.bind fun _ => inBraces_pure rfl
    · exact InBraces.at (inBraces_namedProjection h).item
    · exact inBraces_pure rfl
  · obtain ⟨here, start, stop⟩ := t
    cases alike with
    | same some => exact absurd rfl some
    | last closes =>
        obtain rfl | rfl : here = .symbol .rbrace ∨ here = .endOfInput := closes
        · exact inBraces_pure rfl
        · exact inBraces_pure rfl

theorem inBraces_selectModifier : InBraces (fun _ => 0) selectModifier selectModifier :=
  (inBraces_tryKeyword _).free.bind fun _ => inBraces_ite (fun _ => inBraces_pure rfl) fun _ =>
    (inBraces_tryKeyword _).free.bind fun _ => inBraces_ite (fun _ => inBraces_pure rfl)
      fun _ => inBraces_pure rfl

theorem inBraces_selectClause (h : level.InBraces) :
    InBraces (fun _ => 0) (selectClause level) (selectClause level) :=
  inBraces_skip.bind fun _ => inBraces_selectModifier.bind fun _ =>
    (inBraces_tryMark (by nofun)).free.bind fun _ => inBraces_ite (fun _ => inBraces_pure rfl)
      fun _ => (inBraces_projection? h).many.bind fun _ =>
        inBraces_ite (fun _ => inBraces_expected _ _) fun _ => inBraces_pure rfl

theorem inBraces_whereClause (h : level.InBraces) :
    InBraces (fun _ => 1) (whereClause level) (whereClause level) :=
  (inBraces_tryKeyword _).free.bind fun _ =>
    inBraces_isAt (by nofun) (h.group .group).at (inBraces_expected _ _)

theorem inBraces_variableCondition :
    InBraces (fun _ => 1) (variableCondition ns) (variableCondition ns) :=
  inBraces_varOrTerm.bind fun _ => inBraces_pure rfl

theorem inBraces_conditionName? : InBraces (fun _ => 0) conditionName? conditionName? :=
  (inBraces_tryKeyword _).free.bind fun _ =>
    inBraces_ite (fun _ => (inBraces_variableName _).free.map) fun _ => inBraces_pure rfl

/-- A constraint as an item, where one opens. -/
theorem inBraces_constraintItem {α : Type} (h : level.InBraces) (f : Expression → α) :
    InBraces perItem (do if ← atConstraint then return some (f (← constraint level)) else pure none)
      (do if ← atConstraint then return some (f (← constraint level)) else pure none) :=
  inBraces_atConstraint ((inBraces_constraint h).bind fun _ => inBraces_pure rfl)
    (inBraces_pure rfl)

theorem inBraces_groupCondition? (h : level.InBraces) :
    InBraces perItem (groupCondition? level) (groupCondition? level) := by
  have plain := inBraces_constraintItem h fun value => GroupCondition.mk value none
  refine inBraces_stopping (fun here => ?_) rfl plain
  split
  · exact inBraces_variableCondition.at.bind fun _ => inBraces_pure rfl
  · exact inBraces_skip.at.bind fun _ => (inBraces_expression h).bind fun _ =>
      inBraces_conditionName?.bind fun _ => (inBraces_mark _ _).free.bind
        fun _ => inBraces_pure rfl
  · exact plain.at

/-- Items of which there has to be one. -/
theorem inBraces_some {α : Type} {item : Parser (Option α)} (h : InBraces perItem item item)
    (missing : Expectation) :
    InBraces (fun _ => 0)
      (do
        let items ← many item
        if items.isEmpty then expected missing else pure items)
      (do
        let items ← many item
        if items.isEmpty then expected missing else pure items) :=
  h.many.bind fun _ => inBraces_ite (fun _ => inBraces_expected _ _) fun _ => inBraces_pure rfl

theorem inBraces_groupClause (h : level.InBraces) :
    InBraces (fun _ => 0) (groupClause level) (groupClause level) :=
  (inBraces_tryKeyword _).free.bind fun _ => inBraces_ite
    (fun _ => (inBraces_keyword _ _).free.bind fun _ => inBraces_some (inBraces_groupCondition? h) _)
    fun _ => inBraces_pure rfl

theorem inBraces_havingClause (h : level.InBraces) :
    InBraces (fun _ => 0) (havingClause level) (havingClause level) := by
  have condition : InBraces perItem
      (atConstraint >>= fun found => if found then some <$> constraint level else pure none)
      (atConstraint >>= fun found => if found then some <$> constraint level else pure none) :=
    inBraces_atConstraint (inBraces_constraint h).item (inBraces_pure rfl)
  exact (inBraces_tryKeyword _).free.bind fun _ =>
    inBraces_ite (fun _ => inBraces_some condition _) fun _ => inBraces_pure rfl

theorem inBraces_orderCondition? (h : level.InBraces) :
    InBraces perItem (orderCondition? level) (orderCondition? level) := by
  have plain := inBraces_constraintItem h fun value => OrderCondition.mk value .unmarked
  refine inBraces_stopping (fun here => ?_) rfl plain
  split
  · exact inBraces_skip.at.bind fun _ => (inBraces_bracketedExpression h).bind
      fun _ => inBraces_pure rfl
  · exact inBraces_skip.at.bind fun _ => (inBraces_bracketedExpression h).bind
      fun _ => inBraces_pure rfl
  · exact inBraces_variableCondition.at.bind fun _ => inBraces_pure rfl
  · exact plain.at

theorem inBraces_orderClause (h : level.InBraces) :
    InBraces (fun _ => 0) (orderClause level) (orderClause level) :=
  (inBraces_tryKeyword _).free.bind fun _ => inBraces_ite
    (fun _ => (inBraces_keyword _ _).free.bind fun _ => inBraces_some (inBraces_orderCondition? h) _)
    fun _ => inBraces_pure rfl

theorem inBraces_count (clause : CountClause) :
    InBraces (fun _ => 1) (count clause) (count clause) := by
  refine inBraces_opening (fun here => ?_) fun p => inBraces_expected p _
  split
  · split
    · exact inBraces_pass.bind fun _ => inBraces_pure rfl
    · exact inBraces_fail _ _
  · exact inBraces_expected _ _

theorem inBraces_countOnce (clause : CountClause) (known : Option Int) :
    InBraces (fun _ => 1) (countOnce clause known) (countOnce clause known) :=
  inBraces_ite (fun _ => inBraces_fail _ _) fun _ => inBraces_skip.bind fun _ =>
    inBraces_count clause

theorem inBraces_bound? (bounds : Bounds) : InBraces perItem (bound? bounds) (bound? bounds) :=
  inBraces_isAtKeyword ((inBraces_countOnce .limit _).at.bind fun _ => inBraces_pure rfl)
    (inBraces_isAtKeyword ((inBraces_countOnce .offset _).at.bind fun _ => inBraces_pure rfl)
      (inBraces_pure rfl))

theorem inBraces_modifiers (h : level.InBraces) :
    InBraces (fun _ => 0) (modifiers level) (modifiers level) :=
  (inBraces_groupClause h).bind fun _ => (inBraces_havingClause h).bind fun _ =>
    (inBraces_orderClause h).bind fun _ => (inBraces_repeatFrom inBraces_bound? _).bind
      fun _ => inBraces_pure rfl

theorem inBraces_trailingValues :
    InBraces (fun _ => 0) (trailingValues ns) (trailingValues ns) :=
  (inBraces_tryKeyword _).free.bind fun _ =>
    inBraces_ite (fun _ => inBraces_inlineData.free.map) fun _ => inBraces_pure rfl

theorem inBraces_subSelect (h : level.InBraces) :
    InBraces (fun _ => 1) (subSelect level) (subSelect level) :=
  inBraces_position fun _ => (inBraces_selectClause h).bind fun _ =>
    (inBraces_whereClause h).bind fun _ => (inBraces_modifiers h).bind fun _ =>
      inBraces_trailingValues.bind fun _ => inBraces_position fun _ => inBraces_pure rfl

/-! ## Groups -/

theorem inBraces_groupOrUnion (h : level.InBraces) :
    InBraces (fun _ => 1) (groupOrUnion level) (groupOrUnion level) := by
  have alternatives : InBraces (fun _ => 0) (moreAlternatives level) (moreAlternatives level) :=
    (inBraces_keywordItem (h.group .group).free).many
  exact (h.group .group).bind fun first => alternatives.bind fun more =>
    inBraces_ite (fun _ => inBraces_pure rfl) fun _ => inBraces_position fun _ => inBraces_pure rfl

theorem inBraces_filter (h : level.InBraces) :
    InBraces (fun _ => 1) (filter level) (filter level) :=
  inBraces_position fun _ => inBraces_skip.bind fun _ => (inBraces_constraint h).bind fun _ =>
    inBraces_position fun _ => inBraces_pure rfl

theorem inBraces_bindTarget : InBraces (fun _ => 1) (bindTarget ns) (bindTarget ns) := by
  refine inBraces_opening (fun here => ?_) fun p => inBraces_expected p _
  split
  · exact inBraces_varOrTerm.at
  · exact inBraces_expected _ _

theorem inBraces_binding (h : level.InBraces) :
    InBraces (fun _ => 1) (binding level) (binding level) :=
  inBraces_position fun _ => inBraces_skip.bind fun _ => (inBraces_mark _ _).bind fun _ =>
    (inBraces_expression h).free.bind fun _ => (inBraces_keyword _ _).free.bind fun _ =>
      inBraces_bindTarget.free.bind fun _ => (inBraces_mark _ _).free.bind fun _ =>
        inBraces_position fun _ => inBraces_pure rfl

theorem inBraces_namedGroup (h : level.InBraces) (kind : Term → GroupKind) :
    InBraces (fun _ => 1) (namedGroup level kind) (namedGroup level kind) :=
  inBraces_varOrIri.bind fun name => (h.group (kind name)).free

theorem inBraces_serviceGroup (h : level.InBraces) :
    InBraces (fun _ => 1) (serviceGroup level) (serviceGroup level) :=
  (inBraces_tryKeyword _).free.bind fun _ => inBraces_namedGroup h _

theorem inBraces_triplesBlock (h : level.InBraces) :
    InBraces (fun _ => 1) (triplesBlock level) (triplesBlock level) := by
  have triples : InBraces (fun _ => 1)
      (do
        let triples ← triplesSameSubject level
        if ← tryMark .dot then pure triples
        else if ← atTriples then expected .dotBetweenTriples
        else pure triples)
      (do
        let triples ← triplesSameSubject level
        if ← tryMark .dot then pure triples
        else if ← atTriples then expected .dotBetweenTriples
        else pure triples) :=
    (inBraces_triplesSameSubject h).bind fun _ => (inBraces_tryMark (by nofun)).free.bind
      fun _ => inBraces_ite (fun _ => inBraces_pure rfl) fun _ =>
        inBraces_atTriples (inBraces_expected _ _) (inBraces_pure rfl)
  -- where no triples open the reader fails, so its message need not be the same
  exact inBraces_lexeme (fun _ => InBraces.at (inBraces_atTriples triples (inBraces_fail _ _)))
    fun _ _ => InBraces.at (inBraces_atTriples triples (inBraces_fail _ _))

theorem inBraces_member? (h : level.InBraces) (d : Draft) :
    InBraces perItem (member? level d) (member? level d) := by
  have child : ∀ {A : Cursor → Prop} {p : Parser Group}, InBracesIf A (fun _ => 1) p p →
      InBracesIf A perItem (do return some (d.addChild (← p)))
        (do return some (d.addChild (← p))) := fun hp => hp.bind fun _ => inBraces_pure rfl
  have element : ∀ {A : Cursor → Prop} {p : Parser Element}, InBracesIf A (fun _ => 1) p p →
      InBracesIf A perItem (do return some (d.addElements [← p]))
        (do return some (d.addElements [← p])) := fun hp => hp.bind fun _ => inBraces_pure rfl
  refine inBraces_stopping (fun here => ?_) rfl (inBraces_pure rfl)
  split
  · exact inBraces_pure rfl
  · exact inBraces_pure rfl
  · exact inBraces_pass.bind fun _ => inBraces_pure rfl
  · exact child (inBraces_groupOrUnion h).at
  · exact inBraces_skip.at.bind fun _ => child (h.group .optional)
  · exact inBraces_skip.at.bind fun _ => child (h.group .minus)
  · exact inBraces_skip.at.bind fun _ => child (inBraces_namedGroup h _)
  · exact inBraces_skip.at.bind fun _ => child (inBraces_serviceGroup h)
  · exact element (inBraces_filter h).at
  · exact element (inBraces_binding h).at
  · exact inBraces_skip.at.bind fun _ => inBraces_inlineData.bind fun _ => inBraces_pure rfl
  · exact (inBraces_triplesBlock h).at.bind fun _ => inBraces_pure rfl

theorem inBraces_groupContent (h : level.InBraces) :
    InBraces (fun _ => 0) (groupContent level) (groupContent level) := by
  refine inBraces_isAtKeyword (InBraces.at ?_) (inBraces_repeatFrom (inBraces_member? h) _)
  exact inBraces_position fun _ => (inBraces_subSelect h).free.bind fun _ =>
    inBraces_position fun _ => inBraces_pure rfl

theorem inBraces_bracedGroup (h : level.InBraces) (kind : GroupKind) :
    InBraces (fun _ => 1) (bracedGroup level kind) (bracedGroup level kind) :=
  inBraces_position fun _ => (inBraces_mark _ _).bind fun _ => (inBraces_groupContent h).bind
    fun _ => (inBraces_mark _ _).free.bind fun _ => inBraces_position fun _ => inBraces_pure rfl

/-- The readers of every level read the same up to a closing brace, as those of the one inside it
do. -/
theorem inBraces_ofAllowance (ns : Namespaces) (allowance : Nat) :
    (Level.ofAllowance ns allowance).InBraces := by
  induction allowance with
  | zero =>
      exact ⟨inBraces_fail _ _, fun _ => inBraces_fail _ _, inBraces_fail _ _, inBraces_fail _ _⟩
  | succ allowance inner =>
      exact ⟨inBraces_operandWithin inner, inBraces_bracedGroup inner,
        inBraces_bracketedPath inner, inBraces_bracketedBlankNode inner⟩

end SparqlMetrics.Grammar
