import SparqlMetrics.Grammar.Expression
import SparqlMetrics.Proofs.Grammar.TracksTriples

/-!
# Two runs of the readers of expressions

The readers of expressions follow each other when the readers one level further in do.
-/
namespace SparqlMetrics.TwoRuns

open SparqlMetrics.Parser SparqlMetrics.Grammar

/-- Expressions that are the same but for what is rewritten. -/
abbrev SameExpression (S : TwoRuns) : Expression → Expression → Prop :=
  Same (Expression.rewrite S.rewriting)

/-- Lists of expressions that are the same but for what is rewritten. -/
abbrev SameExpressions (S : TwoRuns) : List Expression → List Expression → Prop :=
  Same (List.map (Expression.rewrite S.rewriting))

variable {S : TwoRuns} {l m : Level}

theorem SameExpressions.all {args args' : List Expression} (h : S.SameExpressions args args') :
    Expression.rewriteAll S.rewriting args = Expression.rewriteAll S.rewriting args' := by
  rw [Expression.rewriteAll_eq_map, Expression.rewriteAll_eq_map, h]

theorem same_cons {α κ : Type} {f : α → κ} {x y : α} {xs ys : List α} (h : Same f x y)
    (h' : Same (List.map f) xs ys) : Same (List.map f) (x :: xs) (y :: ys) := by
  rw [Same, List.map_cons, List.map_cons, h, h']

theorem same_unary {op : Text} {args args' : List Expression} (h : S.SameExpressions args args')
    (span span' : Span) : S.SameExpression (.unary op args span) (.unary op args' span') := by
  simp only [SameExpression, Same, Expression.rewrite, h.all, S.span_eq span span']

theorem same_binary {op : Text} {args args' : List Expression} (h : S.SameExpressions args args')
    (span span' : Span) : S.SameExpression (.binary op args span) (.binary op args' span') := by
  simp only [SameExpression, Same, Expression.rewrite, h.all, S.span_eq span span']

theorem same_call {callee callee' : Callee} {distinct : Bool} {args args' : List Expression}
    (hc : Same (Callee.rewrite S.rewriting) callee callee') (h : S.SameExpressions args args')
    (span span' : Span) :
    S.SameExpression (.call callee distinct args span) (.call callee' distinct args' span') := by
  simp only [SameExpression, Same, Expression.rewrite, h.all, hc, S.span_eq span span']

theorem same_callee {t t' : Term} (h : Same (Term.rewrite S.rewriting) t t') :
    Same (Callee.rewrite S.rewriting) (.iri t) (.iri t') :=
  congrArg Callee.iri h

theorem same_aggregate {name : Text} {distinct star : Bool} {args args' : List Expression}
    {separator : Option Text} (h : S.SameExpressions args args') (span span' : Span) :
    S.SameExpression (.aggregate name distinct star args separator span)
      (.aggregate name distinct star args' separator span') := by
  simp only [SameExpression, Same, Expression.rewrite, h.all, S.span_eq span span']

theorem same_member {negated : Bool} {args args' : List Expression}
    (h : S.SameExpressions args args') (span span' : Span) :
    S.SameExpression (.member negated args span) (.member negated args' span') := by
  simp only [SameExpression, Same, Expression.rewrite, h.all, S.span_eq span span']

theorem same_exists {negated : Bool} {g g' : Group} (h : Same (Group.rewrite S.rewriting) g g')
    (span span' : Span) :
    S.SameExpression (.exists negated (some g) span) (.exists negated (some g') span') := by
  simp only [SameExpression, Same, Expression.rewrite, h, S.span_eq span span']

theorem same_termExpression {t t' : Term} (h : Same (Term.rewrite S.rewriting) t t')
    (span span' : Span) : S.SameExpression (.term t span) (.term t' span') := by
  simp only [SameExpression, Same, Expression.rewrite, h, S.span_eq span span']

def AreMarks (isOperator : Lexeme → Bool) : Prop :=
  ∀ here, isOperator here = true → ∃ s, here = .symbol s

theorem areMarks_productSign : AreMarks isProductSign := by
  intro here h
  simp only [isProductSign, Bool.or_eq_true, beq_iff_eq] at h
  rcases h with rfl | rfl <;> exact ⟨_, rfl⟩

theorem areMarks_sumSign : AreMarks isSumSign := by
  intro here h
  simp only [isSumSign, Bool.or_eq_true, beq_iff_eq] at h
  rcases h with rfl | rfl <;> exact ⟨_, rfl⟩

theorem areMarks_comparison : AreMarks isComparison := by
  intro here h
  simp only [isComparison, Bool.or_eq_true, beq_iff_eq] at h
  rcases h with ((((rfl | rfl) | rfl) | rfl) | rfl) | rfl <;> exact ⟨_, rfl⟩

theorem areMarks_symbol (s : Symbol) : AreMarks (· == .symbol s) := by
  intro here h
  exact ⟨s, beq_iff_eq.mp h⟩

theorem areMarks_prefixOperator : AreMarks isPrefixOperator := by
  intro here h
  simp only [isPrefixOperator, Bool.or_eq_true, beq_iff_eq] at h
  rcases h with rfl | h
  · exact ⟨_, rfl⟩
  · exact areMarks_sumSign here h

/-- Where a mark of a class stands, the other run has the same mark. -/
theorem AreMarks.same {isOperator : Lexeme → Bool} (h : AreMarks isOperator)
    {here there : Lexeme} (alike : S.AlikeSpelled here there) :
    isOperator here = isOperator there ∧ (isOperator here = true → here = there) := by
  cases alike.1 with
  | same => exact ⟨rfl, fun _ => rfl⟩
  | iri =>
      constructor
      · rw [Bool.eq_iff_iff]
        constructor <;> intro mark <;> cases (h _ mark).choose_spec
      · intro mark
        cases (h _ mark).choose_spec

theorem tracks_binaryNode (op : Text) {left left' right right' : Expression}
    (hl : S.SameExpression left left') (hr : S.SameExpression right right') :
    S.Tracks S.SameExpression (binaryNode op left right) (binaryNode op left' right') :=
  tracks_position.bind fun _ _ _ =>
    tracks_pure (same_binary (same_cons hl (same_cons hr rfl)) _ _)

theorem tracks_extendBy {isOperator : Lexeme → Bool} (marks : AreMarks isOperator)
    {operand operand' : Parser Expression} (ho : S.Tracks S.SameExpression operand operand')
    (left left' : Expression) (hl : S.SameExpression left left') :
    S.Tracks (Same (Option.map (Expression.rewrite S.rewriting)))
      (extendBy isOperator operand left) (extendBy isOperator operand' left') :=
  tracks_lexeme.bind fun here there alike => by
    obtain ⟨answer, same⟩ := marks.same alike
    rw [← answer]
    refine tracks_ite (fun operator => ?_) fun _ => tracks_none
    rw [same operator]
    exact tracks_skip.bind fun _ _ _ => ho.bind fun _ _ hr => (tracks_binaryNode _ hl hr).some

theorem tracks_chain {isOperator : Lexeme → Bool} (marks : AreMarks isOperator)
    {operand operand' : Parser Expression} (ho : S.Tracks S.SameExpression operand operand') :
    S.Tracks S.SameExpression (chain isOperator operand) (chain isOperator operand') :=
  ho.bind fun _ _ first => tracks_loop (tracks_extendBy marks ho) first

theorem tracks_sum (h : S.LevelTracks l m) : S.Tracks S.SameExpression (sum l) (sum m) :=
  tracks_chain areMarks_sumSign (tracks_chain areMarks_productSign h.operand)

theorem tracks_moreExpressions {p q : Parser Expression} (hp : S.Tracks S.SameExpression p q) :
    S.Tracks S.SameExpressions (moreExpressions p) (moreExpressions q) :=
  Tracks.many ((tracks_tryMark _).bind fun _ _ same => same ▸
    tracks_ite (fun _ => hp.some) fun _ => tracks_none)

theorem tracks_expressionList {p q : Parser Expression} (hp : S.Tracks S.SameExpression p q) :
    S.Tracks S.SameExpressions (expressionList p) (expressionList q) :=
  (tracks_isAt _).bind fun _ _ same => same ▸
    tracks_ite (fun _ => tracks_pure rfl) fun _ => hp.bind fun _ _ first =>
      (tracks_moreExpressions hp).bind fun _ _ more => tracks_pure (same_cons first more)

theorem tracks_membership? : S.Tracks Eq membership? membership? :=
  (tracks_isAtKeyword _).bind fun _ _ same => same ▸
    tracks_ite (fun _ => tracks_pure rfl) fun _ => (tracks_isAtKeyword _).bind
      fun _ _ same => same ▸ tracks_followingLexeme.bind fun next next' alike => by
        rw [alike.answer (f := Lexeme.keyword?) fun _ _ _ => rfl]
        exact tracks_ite (fun _ => tracks_pure rfl) fun _ => tracks_pure rfl

theorem tracks_memberList {p q : Parser Expression} (hp : S.Tracks S.SameExpression p q)
    (negated : Bool) {left left' : Expression} (hl : S.SameExpression left left') :
    S.Tracks S.SameExpression (memberList p negated left) (memberList q negated left') := by
  have list : S.Tracks S.SameExpression
      (do
        skip
        mark .lparen .openIn
        let items ← expressionList p
        mark .rparen .closeIn
        pure (.member negated (left :: items) ⟨left.span.start, ← position⟩))
      (do
        skip
        mark .lparen .openIn
        let items ← expressionList q
        mark .rparen .closeIn
        pure (.member negated (left' :: items) ⟨left'.span.start, ← position⟩)) :=
    tracks_skip.bind fun _ _ _ => (tracks_mark _ _).bind fun _ _ _ =>
      (tracks_expressionList hp).bind fun _ _ items => (tracks_mark _ _).bind fun _ _ _ =>
        tracks_position.bind fun _ _ _ => tracks_pure (same_member (same_cons hl items) _ _)
  unfold memberList
  exact tracks_ite (fun _ => tracks_skip.bind fun _ _ _ => list) fun _ => list

theorem tracks_relational (h : S.LevelTracks l m) {p q : Parser Expression}
    (hp : S.Tracks S.SameExpression p q) :
    S.Tracks S.SameExpression (relational l p) (relational m q) :=
  (tracks_sum h).bind fun left left' hl =>
    (tracks_extendBy areMarks_comparison (tracks_sum h) left left' hl).bind
      fun found found' same => by
        cases found with
        | some comparison =>
            cases found' with
            | some comparison' => exact tracks_pure (Option.some.inj same)
            | none => cases same
        | none =>
            cases found' with
            | some comparison' => cases same
            | none =>
                refine tracks_membership?.bind fun test _ same => same ▸ ?_
                cases test with
                | some negated => exact tracks_memberList hp negated hl
                | none => exact tracks_pure hl

theorem tracks_expressionUpTo (h : S.LevelTracks l m) (bound : Nat) :
    S.Tracks S.SameExpression (expressionUpTo l bound) (expressionUpTo m bound) := by
  induction bound with
  | zero => exact tracks_expected _ _
  | succ bound ih =>
      exact tracks_chain (areMarks_symbol _) (tracks_chain (areMarks_symbol _)
        (tracks_relational h ih))

theorem tracks_expression (h : S.LevelTracks l m) :
    S.Tracks S.SameExpression (expression l) (expression m) :=
  tracks_remaining.bind fun _ _ same => same ▸ tracks_expressionUpTo h _

theorem tracks_bracketedExpression (h : S.LevelTracks l m) :
    S.Tracks S.SameExpression (bracketedExpression l) (bracketedExpression m) :=
  (tracks_mark _ _).bind fun _ _ _ => (tracks_expression h).bind fun _ _ same =>
    (tracks_mark _ _).bind fun _ _ _ => tracks_pure same

theorem tracks_callArguments (h : S.LevelTracks l m) :
    S.Tracks S.SameExpressions (callArguments l) (callArguments m) :=
  (tracks_expressionList (tracks_expression h)).bind fun _ _ same =>
    (tracks_mark _ _).bind fun _ _ _ => tracks_pure same

theorem tracks_builtinCall (h : S.LevelTracks l m) (name : Text) (start start' : Nat) :
    S.Tracks S.SameExpression (builtinCall l name start) (builtinCall m name start') :=
  (tracks_mark _ _).bind fun _ _ _ => (tracks_callArguments h).bind fun _ _ args =>
    tracks_position.bind fun _ _ _ => tracks_pure (same_call rfl args _ _)

theorem tracks_aggregateArgument (h : S.LevelTracks l m) (name : Text) :
    S.Tracks (fun r r' => r.1 = r'.1 ∧ S.SameExpressions r.2 r'.2) (aggregateArgument l name)
      (aggregateArgument m name) := by
  unfold aggregateArgument
  refine (tracks_isAt _).bind fun _ _ same => same ▸ ?_
  exact tracks_ite (fun _ => tracks_skip.bind fun _ _ _ => tracks_pure ⟨rfl, rfl⟩)
    fun _ => (tracks_expression h).bind fun _ _ arg => tracks_pure ⟨rfl, same_cons arg rfl⟩

theorem tracks_separatorText :
    let value : Parser (Option Text) := do
      mark .equal .equalAfterSeparator
      match ← lexeme with
      | .string value _ =>
        skip
        pure (some value)
      | _ => expected .separatorString
    S.Tracks Eq value value :=
  (tracks_mark _ _).bind fun _ _ _ => tracks_lexeme.bind fun here there alike => by
    cases alike.1 with
    | same =>
        split
        · exact tracks_skip.bind fun _ _ _ => tracks_pure rfl
        · exact tracks_expected _ _
    | iri => exact tracks_expected _ _

theorem tracks_separator? (name : Text) :
    S.Tracks Eq (separator? name) (separator? name) := by
  unfold separator?
  refine (tracks_isAt _).bind fun _ _ same => same ▸ ?_
  have value := @tracks_separatorText S
  refine tracks_ite (fun _ => ?_) fun _ => tracks_pure rfl
  refine tracks_skip.bind fun _ _ _ => tracks_lexeme.bind fun here there alike => ?_
  cases alike.1 with
  | same =>
      split
      · split
        · exact tracks_skip.bind fun _ _ _ => value
        · exact (tracks_expected (R := fun _ _ => True) _ _).bind fun _ _ _ => value
      · exact (tracks_expected (R := fun _ _ => True) _ _).bind fun _ _ _ => value
  | iri => exact (tracks_expected (R := fun _ _ => True) _ _).bind fun _ _ _ => value

theorem tracks_aggregateCall (h : S.LevelTracks l m) (name : Text) (start start' : Nat) :
    S.Tracks S.SameExpression (aggregateCall l name start) (aggregateCall m name start') :=
  (tracks_mark _ _).bind fun _ _ _ => (tracks_tryKeyword _).bind fun _ _ same => same ▸
    (tracks_aggregateArgument h name).bind fun r r' args => (tracks_separator? name).bind
      fun _ _ same => same ▸ (tracks_mark _ _).bind fun _ _ _ => tracks_position.bind
        fun _ _ _ => tracks_pure <| by
          obtain ⟨star, args₁⟩ := r
          obtain ⟨star', args₂⟩ := r'
          obtain ⟨rfl, sameArgs⟩ := args
          exact same_aggregate sameArgs _ _

theorem tracks_namedCall (h : S.LevelTracks l m) (spelled : Text) :
    S.Tracks S.SameExpression (namedCall l spelled) (namedCall m spelled) :=
  tracks_position.bind fun _ _ _ => tracks_followingLexeme.bind fun next next' alike => by
    rw [alike.answer (f := (· == .symbol .lparen)) fun _ _ _ => rfl]
    exact tracks_ite (fun _ => tracks_skip.bind fun _ _ _ => tracks_ite
      (fun _ => tracks_aggregateCall h _ _ _) fun _ => tracks_builtinCall h _ _ _)
      fun _ => tracks_fail _ _

theorem tracks_iriExpression (h : S.LevelTracks l m) :
    S.Tracks S.SameExpression (iriExpression l) (iriExpression m) :=
  tracks_position.bind fun _ _ _ => (tracks_iriTerm h.namespaces).bind fun _ _ iri =>
    (tracks_tryMark _).bind fun _ _ same => same ▸ tracks_ite
      (fun _ => (tracks_tryKeyword _).bind fun _ _ same => same ▸
        (tracks_callArguments h).bind fun _ _ args => tracks_position.bind fun _ _ _ =>
          tracks_pure (same_call (same_callee iri) args _ _))
      fun _ => tracks_position.bind fun _ _ _ => tracks_pure (same_termExpression iri _ _)

theorem tracks_existsTest (h : S.LevelTracks l m) (negated : Bool) (start start' : Nat) :
    S.Tracks S.SameExpression (existsTest l negated start) (existsTest m negated start') :=
  tracks_skip.bind fun _ _ _ => (h.group _ _ rfl).bind fun _ _ pattern =>
    tracks_position.bind fun _ _ _ => tracks_pure (same_exists pattern _ _)

theorem tracks_termExpression (h : S.LevelTracks l m) :
    S.Tracks S.SameExpression (termExpression l) (termExpression m) :=
  tracks_position.bind fun _ _ _ => (tracks_varOrTerm h.namespaces).bind fun _ _ same =>
    tracks_position.bind fun _ _ _ => tracks_pure (same_termExpression same _ _)

theorem tracks_primaryExpression (h : S.LevelTracks l m) :
    S.Tracks S.SameExpression (primaryExpression l) (primaryExpression m) :=
  tracks_position.bind fun start start' _ => tracks_lexeme.bind fun here there alike => by
    cases alike.1 with
    | same =>
        split
        · exact tracks_bracketedExpression h
        · exact tracks_skip.bind fun _ _ _ => (tracks_isAtKeyword _).bind fun _ _ same => same ▸
            tracks_ite (fun _ => tracks_existsTest h _ _ _) fun _ => tracks_expected _ _
        · exact tracks_existsTest h _ _ _
        · exact tracks_namedCall h _
        · exact tracks_iriExpression h
        · exact tracks_iriExpression h
        · exact tracks_termExpression h
        · exact tracks_termExpression h
        · exact tracks_termExpression h
        · exact tracks_termExpression h
        · exact tracks_termExpression h
        · exact tracks_expected _ _
    | iri => exact tracks_iriExpression h

theorem tracks_operandWithin (h : S.LevelTracks l m) :
    S.Tracks S.SameExpression (operandWithin l) (operandWithin m) :=
  tracks_position.bind fun _ _ _ => tracks_lexeme.bind fun here there alike => by
    obtain ⟨answer, same⟩ := areMarks_prefixOperator.same alike
    rw [← answer]
    refine tracks_ite (fun operator => ?_) fun _ => tracks_primaryExpression h
    rw [same operator]
    exact tracks_skip.bind fun _ _ _ => h.operand.bind fun _ _ arg =>
      tracks_position.bind fun _ _ _ => tracks_pure (same_unary (same_cons arg rfl) _ _)

theorem tracks_atConstraint : S.Tracks Eq atConstraint atConstraint :=
  tracks_lexeme.bind fun here there alike => tracks_followingLexeme.bind fun next next' alike' => by
    refine tracks_pure ?_
    rw [alike'.answer (f := startsConstraint here) fun _ _ _ => by cases here <;> rfl]
    exact alike.answer (f := (startsConstraint · next')) fun _ _ _ => rfl

theorem tracks_constraint (h : S.LevelTracks l m) :
    S.Tracks S.SameExpression (constraint l) (constraint m) :=
  tracks_atConstraint.bind fun _ _ same => same ▸
    tracks_ite (fun _ => tracks_primaryExpression h) fun _ => tracks_expected _ _

end SparqlMetrics.TwoRuns
