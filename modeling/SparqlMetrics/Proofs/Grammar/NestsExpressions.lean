import SparqlMetrics.Proofs.Grammar.AnswersExpressions
import SparqlMetrics.Proofs.Grammar.NestsTriples

/-!
# How braces nest in expressions

No operator is a brace. The only braces of an expression are those of the patterns that it tests
for.
-/
namespace SparqlMetrics.Grammar

open SparqlMetrics.Parser

variable {A : Cursor → Prop} {level : Level} {p : Parser Expression}

/-- A class of lexemes that are no braces and do not end the input. -/
def IsInnerClass (isOperator : Lexeme → Bool) : Prop :=
  ∀ here, isOperator here = true → here.isInner = true

theorem isInnerClass_productSign : IsInnerClass isProductSign := by
  intro here h
  simp only [isProductSign, Bool.or_eq_true, beq_iff_eq] at h
  rcases h with rfl | rfl <;> rfl

theorem isInnerClass_comparison : IsInnerClass isComparison := by
  intro here h
  simp only [isComparison, Bool.or_eq_true, beq_iff_eq] at h
  rcases h with ((((rfl | rfl) | rfl) | rfl) | rfl) | rfl <;> rfl

theorem isInnerClass_prefixOperator : IsInnerClass isPrefixOperator := by
  intro here h
  simp only [isPrefixOperator, Bool.or_eq_true, beq_iff_eq] at h
  rcases h with rfl | sign
  · rfl
  · exact isInner_of_isSumSign sign

theorem isInnerClass_symbol {s : Symbol} (inner : (Lexeme.symbol s).isInner = true) :
    IsInnerClass (· == .symbol s) :=
  fun _ same => beq_iff_eq.mp same ▸ inner

theorem nests_extendBy {isOperator : Lexeme → Bool} (inner : IsInnerClass isOperator)
    (hp : Nests p) (left : Expression) : Nests (extendBy isOperator p left) :=
  leaves_lexeme fun here => by
    split
    · next operator =>
      refine (nests_skip (inner here operator)).bind fun _ => hp.bind fun right => NestsIf.map ?_ _
      exact .position fun _ => nests_pure
    · exact nests_pure

theorem nests_chain {isOperator : Lexeme → Bool} (inner : IsInnerClass isOperator) (hp : Nests p) :
    Nests (chain isOperator p) :=
  hp.bind fun _ => nests_repeatFrom (nests_extendBy inner hp)

theorem nests_sum (h : level.Nests) : Nests (sum level) :=
  nests_chain (fun _ => isInner_of_isSumSign) (nests_chain isInnerClass_productSign h.operand)

theorem nests_moreExpressions (hp : Nests p) : Nests (moreExpressions p) := by
  refine nests_many ((nests_tryMark rfl).bind fun _ => ?_)
  split
  · exact hp.map some
  · exact nests_pure

theorem nests_expressionList (hp : Nests p) : Nests (expressionList p) :=
  leaves_isAt nests_pure
    (hp.bind fun _ => (nests_moreExpressions hp).bind fun _ => nests_pure)

/-! ## Membership tests -/

theorem nests_membership? : Nests membership? :=
  .drop fun _ => by
    split
    · exact nests_pure
    · refine .drop fun _ => .followingLexeme fun _ => ?_
      split
      · exact nests_pure
      · exact nests_pure

theorem nestsIf_memberList (hp : Nests p) (negated : Bool) (left : Expression) :
    NestsIf (AtMembership negated) (memberList p negated left) := by
  have list : NestsIf (AtMembership false) (do
      skip
      mark .lparen .openIn
      let items ← expressionList p
      mark .rparen .closeIn
      pure (Expression.member negated (left :: items) ⟨left.span.start, ← position⟩)) :=
    nests_skipKeyword.bind fun _ => (nests_mark rfl (by nofun)).bind fun _ =>
      (nests_expressionList hp).bind fun _ => (nests_mark rfl (by nofun)).bind fun _ =>
        .position fun _ => nests_pure
  unfold memberList
  split
  · next isNegated =>
    subst isNegated
    have skips : NestsIf (AtMembership true) skip :=
      nests_skipKeyword.weaken fun _ (here : AtMembership true _) => here.1
    refine skips.bindIf (B := fun _ => AtMembership false) (fun c _ c' _ here read => ?_)
      fun _ => list
    obtain rfl : c.advance = c' := (Prod.mk.inj (Except.ok.inj read)).2
    exact here.2
  · next plain =>
    rw [Bool.not_eq_true] at plain
    exact plain ▸ list

theorem nests_relational (h : level.Nests) (hp : Nests p) : Nests (relational level p) :=
  (nests_sum h).bind fun left =>
    (nests_extendBy isInnerClass_comparison (nests_sum h) left).bind fun found => by
      cases found with
      | some comparison => exact nests_pure
      | none =>
          refine nests_membership?.bindIf
            (B := fun test c => ∀ negated, test = some negated → AtMembership negated c)
            (fun c test c' _ _ read negated same => ?_) fun test => ?_
          · exact atMembership_of_membership? (same ▸ read)
          cases test with
          | some negated =>
              exact (nestsIf_memberList hp negated left).weaken fun _ here => here negated rfl
          | none => exact nests_pure

theorem nests_expressionUpTo (h : level.Nests) (bound : Nat) :
    Nests (expressionUpTo level bound) := by
  induction bound with
  | zero => exact leaves_expected (by nofun)
  | succ bound ih =>
      exact nests_chain (isInnerClass_symbol rfl)
        (nests_chain (isInnerClass_symbol rfl) (nests_relational h ih))

theorem nests_expression (h : level.Nests) : Nests (expression level) :=
  .remaining fun _ => nests_expressionUpTo h _

theorem nests_bracketedExpression (h : level.Nests) : Nests (bracketedExpression level) :=
  (nests_mark rfl (by nofun)).bind fun _ => (nests_expression h).bind fun _ =>
    (nests_mark rfl (by nofun)).bind fun _ => nests_pure

/-! ## Calls -/

theorem nests_callArguments (h : level.Nests) : Nests (callArguments level) :=
  (nests_expressionList (nests_expression h)).bind fun _ => (nests_mark rfl (by nofun)).bind
    fun _ => nests_pure

theorem nests_builtinCall (h : level.Nests) (name : Text) (start : Nat) :
    Nests (builtinCall level name start) :=
  (nests_mark rfl (by nofun)).bind fun _ => (nests_callArguments h).bind fun _ =>
    .position fun _ => nests_pure

theorem nests_aggregateArgument (h : level.Nests) (name : Text) :
    Nests (aggregateArgument level name) := by
  have one : Nests (do
      let arg ← expression level
      pure (false, [arg])) := (nests_expression h).bind fun _ => nests_pure
  unfold aggregateArgument
  refine leaves_isAt ?_ ?_
  · split
    · exact (nests_skip rfl).bind fun _ => nests_pure
    · exact one.at
  · rw [Bool.and_false]
    exact one

theorem nests_separatorText : Nests (do
      mark .equal .equalAfterSeparator
      match ← lexeme with
      | .string value _ =>
        skip
        pure (some value)
      | _ => expected .separatorString) :=
  (nests_mark rfl (by nofun)).bind fun _ => leaves_lexeme fun here => by
    split
    · exact (nests_skip rfl).bind fun _ => nests_pure
    · exact leaves_expected (by nofun)

theorem nests_separator? (name : Text) : Nests (separator? name) := by
  have missing : ∀ {A : Cursor → Prop}, NestsIf A (expected .separatorName : Parser Unit) :=
    leaves_expected (by nofun)
  unfold separator?
  refine leaves_isAt ?_ ?_
  · split
    · refine (nests_skip rfl).bind fun _ => leaves_lexeme fun here => ?_
      split
      · split
        · exact (nests_skip rfl).bind fun _ => nests_separatorText
        · exact missing.bind fun _ => nests_separatorText
      · exact missing.bind fun _ => nests_separatorText
    · exact nests_pure
  · rw [Bool.and_false]
    exact nests_pure

theorem nests_aggregateCall (h : level.Nests) (name : Text) (start : Nat) :
    Nests (aggregateCall level name start) :=
  (nests_mark rfl (by nofun)).bind fun _ => nests_tryKeyword.bind fun _ =>
    (nests_aggregateArgument h name).bind fun _ => (nests_separator? name).bind fun _ =>
      (nests_mark rfl (by nofun)).bind fun _ => .position fun _ => nests_pure

theorem nestsAt_namedCall (h : level.Nests) (spelled : Text) :
    NestsAt (.identifier spelled) (namedCall level spelled) :=
  .position fun start => .followingLexeme fun _ => by
    split
    · refine (nests_skip rfl).bind fun _ => ?_
      split
      · exact nests_aggregateCall h _ start
      · exact nests_builtinCall h _ start
    · exact leaves_fail (by nofun)

theorem nests_iriExpression (h : level.Nests) : Nests (iriExpression level) :=
  .position fun _ => nests_iriTerm.bind fun _ => (nests_tryMark rfl).bind fun _ => by
    split
    · exact nests_tryKeyword.bind fun _ => (nests_callArguments h).bind fun _ =>
        .position fun _ => nests_pure
    · exact .position fun _ => nests_pure

theorem nests_existsTest (h : level.Nests) (negated : Bool) (start : Nat) :
    NestsIf (·.token.lexeme.keyword? = some .EXISTS) (existsTest level negated start) :=
  nests_skipKeyword.bind fun _ => (h.group .group).bind fun _ => .position fun _ => nests_pure

theorem nests_termExpression : Nests (termExpression level) :=
  .position fun _ => nests_varOrTerm.bind fun _ => .position fun _ => nests_pure

theorem nests_primaryExpression (h : level.Nests) : Nests (primaryExpression level) :=
  LeavesIf.position fun start => leaves_lexeme fun here => by
    split
    · exact (nests_bracketedExpression h).at
    · exact (nests_skip rfl).bind fun _ =>
        leaves_isAtKeyword (nests_existsTest h true start) (leaves_expected (by nofun))
    · exact (nests_existsTest h false start).weaken fun _ same => same ▸ rfl
    · exact nestsAt_namedCall h _
    · exact (nests_iriExpression h).at
    · exact (nests_iriExpression h).at
    · exact nests_termExpression.at
    · exact nests_termExpression.at
    · exact nests_termExpression.at
    · exact nests_termExpression.at
    · exact nests_termExpression.at
    · exact leaves_expected (by nofun)

theorem nests_operandWithin (h : level.Nests) : Nests (operandWithin level) :=
  LeavesIf.position fun _ => leaves_lexeme fun here => by
    split
    · next operator =>
      exact (nests_skip (isInnerClass_prefixOperator here operator)).bind fun _ =>
        h.operand.bind fun _ => .position fun _ => nests_pure
    · exact (nests_primaryExpression h).at

theorem nests_atConstraint : NestsIf A atConstraint :=
  .drop fun _ => .followingLexeme fun _ => nests_pure

theorem nests_constraint (h : level.Nests) : Nests (constraint level) :=
  nests_atConstraint.bind fun _ => by
    split
    · exact nests_primaryExpression h
    · exact leaves_expected (by nofun)

end SparqlMetrics.Grammar
