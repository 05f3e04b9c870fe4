import SparqlMetrics.Proofs.Grammar.LegalTriples
import SparqlMetrics.Proofs.Text.Byte

/-!
# Expressions as they are read

What the readers of expressions yield. An operator is known from the lexeme that was passed over, so
every unary and binary node carries one of the known operators. Main statement:
`Grammar.yields_expression`.
-/
namespace SparqlMetrics

theorem isWord_toUpper {word : Text} (h : IsWord word) : IsWord word.toUpper := by
  obtain ⟨start, bytes⟩ := h
  constructor
  · cases word with
    | nil => simp at start
    | cons b rest => simpa [Text.toUpper, Byte.isNameStart_toUpper] using start
  · intro b hb
    obtain ⟨c, hc, rfl⟩ := List.mem_map.mp hb
    rw [Byte.isNameByte_toUpper]
    exact bytes c hc

namespace Grammar

open SparqlMetrics.Parser

abbrev LegalExpression (e : Expression) : Prop := e.Everywhere legalChecks

variable {level : Level}

/-- A class of lexemes that are binary operators. -/
def IsOperatorClass (isOperator : Lexeme → Bool) : Prop :=
  ∀ here, isOperator here = true → here.text ∈ binaryOperators.map Symbol.text

theorem isOperatorClass_productSign : IsOperatorClass isProductSign := by
  intro here h
  simp only [isProductSign, Bool.or_eq_true, beq_iff_eq] at h
  rcases h with rfl | rfl <;> decide

theorem isOperatorClass_sumSign : IsOperatorClass isSumSign := by
  intro here h
  simp only [isSumSign, Bool.or_eq_true, beq_iff_eq] at h
  rcases h with rfl | rfl <;> decide

theorem isOperatorClass_comparison : IsOperatorClass isComparison := by
  intro here h
  simp only [isComparison, Bool.or_eq_true, beq_iff_eq] at h
  rcases h with ((((rfl | rfl) | rfl) | rfl) | rfl) | rfl <;> decide

theorem isOperatorClass_symbol {s : Symbol} (h : s ∈ binaryOperators) :
    IsOperatorClass (· == .symbol s) := by
  intro here same
  rw [beq_iff_eq.mp same]
  exact List.mem_map.mpr ⟨s, h, rfl⟩

theorem yields_binaryNode {op : Text} (known : op ∈ binaryOperators.map Symbol.text)
    {left right : Expression} (hl : LegalExpression left) (hr : LegalExpression right) :
    Yields (binaryNode op left right) LegalExpression :=
  yields_position.bind fun _ _ => yields_pure ⟨⟨⟨known, rfl⟩, trivial⟩, hl, hr, trivial⟩

theorem yields_extendBy {isOperator : Lexeme → Bool} (known : IsOperatorClass isOperator)
    {operand : Parser Expression} (ho : Yields operand LegalExpression) (left : Expression)
    (hl : LegalExpression left) :
    Yields (extendBy isOperator operand left) (IfSome LegalExpression) :=
  yields_lexeme.bind fun here _ => by
    split
    · next operator =>
      exact yields_skip.bind fun _ _ => ho.bind fun right hr =>
        (yields_binaryNode (known here operator) hl hr).some
    · exact yields_none

theorem yields_chain {isOperator : Lexeme → Bool} (known : IsOperatorClass isOperator)
    {operand : Parser Expression} (ho : Yields operand LegalExpression) :
    Yields (chain isOperator operand) LegalExpression :=
  ho.bind fun _ hfirst => yields_repeatFrom (yields_extendBy known ho) hfirst

theorem yields_sum (h : level.Legal) : Yields (sum level) LegalExpression :=
  yields_chain isOperatorClass_sumSign (yields_chain isOperatorClass_productSign h.operand)

theorem yields_moreExpressions {p : Parser Expression} (hp : Yields p LegalExpression) :
    Yields (moreExpressions p) (∀ e ∈ ·, LegalExpression e) := by
  refine Yields.many ?_
  refine (yields_tryMark _).bind fun _ _ => ?_
  split
  · exact hp.some
  · exact yields_none

theorem yields_expressionList {p : Parser Expression} (hp : Yields p LegalExpression) :
    Yields (expressionList p) (∀ e ∈ ·, LegalExpression e) :=
  (yields_isAt _).bind fun _ _ => by
    split
    · exact yields_pure (by simp)
    · exact hp.bind fun first hfirst => (yields_moreExpressions hp).bind fun more hmore =>
        yields_pure (List.forall_mem_cons.mpr ⟨hfirst, hmore⟩)

theorem yields_membership? : Yields membership? fun _ => True :=
  (yields_isAtKeyword _).bind fun _ _ => by
    split
    · exact yields_pure trivial
    · exact (yields_isAtKeyword _).bind fun _ _ => yields_followingLexeme.bind fun _ _ => by
        split
        · exact yields_pure trivial
        · exact yields_pure trivial

theorem yields_memberList {p : Parser Expression} (hp : Yields p LegalExpression) (negated : Bool)
    {left : Expression} (hl : LegalExpression left) :
    Yields (memberList p negated left) LegalExpression := by
  have list : Yields (do
      skip
      mark .lparen .openIn
      let items ← expressionList p
      mark .rparen .closeIn
      pure (.member negated (left :: items) ⟨left.span.start, ← position⟩)) LegalExpression :=
    yields_skip.bind fun _ _ => (yields_mark _ _).bind fun _ _ =>
      (yields_expressionList hp).bind fun items hitems => (yields_mark _ _).bind fun _ _ =>
        yields_position.bind fun _ _ => yields_pure
          ⟨⟨List.cons_ne_nil _ _, trivial⟩, hl, Expression.everywhereAll_iff.mpr hitems⟩
  unfold memberList
  split
  · exact yields_skip.bind fun _ _ => list
  · exact list

theorem yields_relational (h : level.Legal) {p : Parser Expression}
    (hp : Yields p LegalExpression) : Yields (relational level p) LegalExpression :=
  (yields_sum h).bind fun left hl =>
    (yields_extendBy isOperatorClass_comparison (yields_sum h) left hl).bind fun found hfound => by
      cases found with
      | some comparison => exact yields_pure (hfound comparison rfl)
      | none =>
          refine yields_membership?.bind fun test _ => ?_
          cases test with
          | some negated => exact yields_memberList hp negated hl
          | none => exact yields_pure hl

theorem yields_expressionUpTo (h : level.Legal) (bound : Nat) :
    Yields (expressionUpTo level bound) LegalExpression := by
  induction bound with
  | zero => exact yields_expected _
  | succ bound ih =>
      exact yields_chain (isOperatorClass_symbol (by decide))
        (yields_chain (isOperatorClass_symbol (by decide)) (yields_relational h ih))

theorem yields_expression (h : level.Legal) : Yields (expression level) LegalExpression :=
  yields_remaining.bind fun _ _ => yields_expressionUpTo h _

theorem yields_bracketedExpression (h : level.Legal) :
    Yields (bracketedExpression level) LegalExpression :=
  (yields_mark _ _).bind fun _ _ => (yields_expression h).bind fun _ he =>
    (yields_mark _ _).bind fun _ _ => yields_pure he

theorem yields_callArguments (h : level.Legal) :
    Yields (callArguments level) (∀ e ∈ ·, LegalExpression e) :=
  (yields_expressionList (yields_expression h)).bind fun _ hargs =>
    (yields_mark _ _).bind fun _ _ => yields_pure hargs

theorem IsFunctionName.ne_nil {name : Text} (h : IsFunctionName name) : name ≠ [] := by
  rintro rfl
  simp [IsFunctionName, IsWord] at h

theorem yields_builtinCall (h : level.Legal) {name : Text} (function : IsFunctionName name)
    (start : Nat) : Yields (builtinCall level name start) LegalExpression :=
  (yields_mark _ _).bind fun _ _ => (yields_callArguments h).bind fun _ hargs =>
    yields_position.bind fun _ _ => yields_pure ⟨⟨IsFunctionName.ne_nil function, function, rfl⟩,
      trivial, Expression.everywhereAll_iff.mpr hargs⟩

theorem yields_aggregateArgument (h : level.Legal) (name : Text) :
    Yields (aggregateArgument level name) fun r =>
      (if r.1 then name = utf8 "COUNT" ∧ r.2 = [] else r.2.length = 1) ∧
        ∀ e ∈ r.2, LegalExpression e := by
  have one : Yields (do
      let arg ← expression level
      pure (false, [arg])) fun r : Bool × List Expression =>
      (if r.1 then name = utf8 "COUNT" ∧ r.2 = [] else r.2.length = 1) ∧
        ∀ e ∈ r.2, LegalExpression e :=
    (yields_expression h).bind fun arg harg => yields_pure ⟨rfl, by simpa using harg⟩
  unfold aggregateArgument
  refine (yields_isAt _).bind fun _ _ => ?_
  split
  · next star =>
    simp only [Bool.and_eq_true, beq_iff_eq] at star
    exact yields_skip.bind fun _ _ => yields_pure ⟨⟨star.1, rfl⟩, by simp⟩
  · exact one

theorem yields_separatorText {P : Prop} (h : P) :
    Yields (do
      mark .equal .equalAfterSeparator
      match ← lexeme with
      | .string value _ =>
        skip
        pure (some value)
      | _ => expected .separatorString) fun separator : Option Text =>
      separator.isSome = true → P :=
  (yields_mark _ _).bind fun _ _ => yields_lexeme.bind fun here _ => by
    split
    · exact yields_skip.bind fun _ _ => yields_pure fun _ => h
    · exact yields_expected _

theorem yields_separator? (name : Text) :
    Yields (separator? name) fun separator =>
      separator.isSome = true → name = utf8 "GROUP_CONCAT" := by
  unfold separator?
  refine (yields_isAt _).bind fun _ _ => ?_
  split
  · next concat =>
    simp only [Bool.and_eq_true, beq_iff_eq] at concat
    have value := yields_separatorText concat.1
    refine yields_skip.bind fun _ _ => yields_lexeme.bind fun here _ => ?_
    split
    · split
      · exact yields_skip.bind fun _ _ => value
      · exact (yields_expected (P := fun _ => True) _).bind fun _ _ => value
    · exact (yields_expected (P := fun _ => True) _).bind fun _ _ => value
  · exact yields_pure nofun

theorem yields_aggregateCall (h : level.Legal) {name : Text}
    (aggregate : isAggregateName name = true) (start : Nat) :
    Yields (aggregateCall level name start) LegalExpression :=
  (yields_mark _ _).bind fun _ _ => (yields_tryKeyword _).bind fun _ _ =>
    (yields_aggregateArgument h name).bind fun _ hr => (yields_separator? name).bind fun _ hsep =>
      (yields_mark _ _).bind fun _ _ => yields_position.bind fun _ _ =>
        yields_pure ⟨⟨⟨hr.1, hsep⟩, aggregate⟩, Expression.everywhereAll_iff.mpr hr.2⟩

theorem yields_namedCall (h : level.Legal) {spelled : Text} (word : IsWord spelled)
    (free : Keyword.ofCapitals? spelled.toUpper = none) :
    Yields (namedCall level spelled) LegalExpression :=
  yields_position.bind fun start _ => yields_followingLexeme.bind fun next _ => by
    split
    · refine yields_skip.bind fun _ _ => ?_
      split
      · next aggregate => exact yields_aggregateCall h aggregate start
      · next other =>
        exact yields_builtinCall h ⟨isWord_toUpper word, Text.toUpper_toUpper spelled, free,
          by simpa using other⟩ start
    · exact yields_fail _

theorem yields_iriExpression (h : level.Legal) : Yields (iriExpression level) LegalExpression :=
  yields_position.bind fun _ _ => (yields_iriTerm h.namespaces).bind fun t ht =>
    (yields_tryMark _).bind fun _ _ => by
      split
      · exact (yields_tryKeyword _).bind fun _ _ => (yields_callArguments h).bind fun args hargs =>
          yields_position.bind fun _ _ => yields_pure ⟨⟨ht.isIri, trivial⟩, ht.legal true,
            Expression.everywhereAll_iff.mpr hargs⟩
      · refine yields_position.bind fun _ _ => yields_pure ⟨⟨trivial, ht.legal false, ?_⟩,
          ht.legal true⟩
        obtain ⟨iri, same, _⟩ := ht
        rw [same]
        rfl

theorem yields_existsTest (h : level.Legal) (negated : Bool) (start : Nat) :
    Yields (existsTest level negated start) LegalExpression :=
  yields_skip.bind fun _ _ => (h.group .group trivial trivial (by simp)).bind fun g hg =>
    yields_position.bind fun _ _ => yields_pure ⟨⟨rfl, hg.2⟩, hg.1⟩

/-- A term stands without a sign where no sign is at its first lexeme. -/
theorem yieldsAt_termExpression (h : level.Legal) {here : Lexeme} (unsigned : isSumSign here = false)
    (named : ∀ label, here ≠ .blankNodeLabel label) :
    YieldsAt here (termExpression level) LegalExpression :=
  .bind_position fun _ => YieldsAt.bind (yieldsAt_varOrTerm h.namespaces here) fun t ht => by
    have noBlank : t.node.isBlank = false := by
      rw [Bool.eq_false_iff]
      intro blank
      obtain ⟨label, same⟩ := ht.2 blank
      exact named label same
    exact yields_position.bind fun _ _ =>
      yields_pure ⟨⟨trivial, unsigned ▸ ht.1, noBlank⟩, ht.1.signed⟩

theorem yields_primaryExpression (h : level.Legal) :
    Yields (primaryExpression level) LegalExpression :=
  yields_position.bind fun start _ => yields_lexeme_bind fun here spelled => by
    split
    · exact (yields_bracketedExpression h).at _
    · refine Yields.at (yields_skip.bind fun _ _ => (yields_isAtKeyword _).bind fun _ _ => ?_) _
      split
      · exact yields_existsTest h _ _
      · exact yields_expected _
    · exact (yields_existsTest h _ _).at _
    · exact (yields_namedCall h spelled.1 spelled.2).at _
    · exact (yields_iriExpression h).at _
    · exact (yields_iriExpression h).at _
    · exact yieldsAt_termExpression h rfl nofun
    · exact yieldsAt_termExpression h rfl nofun
    · exact yieldsAt_termExpression h rfl nofun
    · exact yieldsAt_termExpression h rfl nofun
    · exact yieldsAt_termExpression h rfl nofun
    · exact (yields_expected _).at _

theorem mem_prefixOperators {here : Lexeme} (h : isPrefixOperator here = true) :
    here.text ∈ prefixOperators.map Symbol.text := by
  simp only [isPrefixOperator, isSumSign, Bool.or_eq_true, beq_iff_eq] at h
  rcases h with rfl | rfl | rfl <;> decide

theorem yields_operandWithin (h : level.Legal) : Yields (operandWithin level) LegalExpression :=
  yields_position.bind fun _ _ => yields_lexeme.bind fun here _ => by
    split
    · next operator =>
      exact yields_skip.bind fun _ _ => h.operand.bind fun _ harg => yields_position.bind fun _ _ =>
        yields_pure ⟨⟨⟨mem_prefixOperators operator, rfl⟩, trivial⟩, harg, trivial⟩
    · exact yields_primaryExpression h

theorem yields_atConstraint : Yields atConstraint fun _ => True :=
  yields_lexeme.bind fun _ _ => yields_followingLexeme.bind fun _ _ => yields_pure trivial

theorem yields_constraint (h : level.Legal) : Yields (constraint level) LegalExpression :=
  yields_atConstraint.bind fun _ _ => by
    split
    · exact yields_primaryExpression h
    · exact yields_expected _

end Grammar

end SparqlMetrics
