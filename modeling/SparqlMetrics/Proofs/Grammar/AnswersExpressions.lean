import SparqlMetrics.Grammar.Expression
import SparqlMetrics.Proofs.Grammar.AnswersTerms

/-!
# What readers of expressions answer

The readers of expressions account for their answers when the readers one level further in do. An
operator is a mark, so the text of every unary and binary node is a constant; the name of a call is
the capital form of an identifier. Main statement: `Grammar.answers_expression`.
-/
namespace SparqlMetrics.Grammar

open SparqlMetrics.Parser

variable {S : Scope} {level : Level}

abbrev HoldsExpression (S : Scope) (e : Expression) : Prop := e.Everywhere S.checks

/-- A class of lexemes that are marks, none of which opens brackets. -/
def IsMarkClass (isOperator : Lexeme → Bool) : Prop :=
  ∀ here, isOperator here = true → ∃ s, here = .symbol s ∧ s ≠ .lbracket

theorem isMarkClass_productSign : IsMarkClass isProductSign := by
  intro here h
  simp only [isProductSign, Bool.or_eq_true, beq_iff_eq] at h
  rcases h with rfl | rfl <;> exact ⟨_, rfl, by decide⟩

theorem isMarkClass_sumSign : IsMarkClass isSumSign := by
  intro here h
  simp only [isSumSign, Bool.or_eq_true, beq_iff_eq] at h
  rcases h with rfl | rfl <;> exact ⟨_, rfl, by decide⟩

theorem isMarkClass_comparison : IsMarkClass isComparison := by
  intro here h
  simp only [isComparison, Bool.or_eq_true, beq_iff_eq] at h
  rcases h with ((((rfl | rfl) | rfl) | rfl) | rfl) | rfl <;> exact ⟨_, rfl, by decide⟩

theorem isMarkClass_prefixOperator : IsMarkClass isPrefixOperator := by
  intro here h
  simp only [isPrefixOperator, Bool.or_eq_true, beq_iff_eq] at h
  rcases h with rfl | sign
  · exact ⟨_, rfl, by decide⟩
  · exact isMarkClass_sumSign here sign

theorem isMarkClass_symbol {s : Symbol} (other : s ≠ .lbracket) : IsMarkClass (· == .symbol s) :=
  fun _ same => ⟨s, beq_iff_eq.mp same, other⟩

theorem answers_binaryNode {op : Text} (hop : S.texts.Holds op) {left right : Expression}
    (hl : HoldsExpression S left) (hr : HoldsExpression S right) :
    Answers S (binaryNode op left right) (HoldsExpression S) :=
  .position fun _ => answers_pure ⟨TextClass.keeps_singleton.mpr hop, hl, hr, trivial⟩

theorem answers_extendBy {isOperator : Lexeme → Bool} (marks : IsMarkClass isOperator)
    {operand : Parser Expression} (ho : Answers S operand (HoldsExpression S))
    (left : Expression) (hl : HoldsExpression S left) :
    Answers S (extendBy isOperator operand left) (IfSome (HoldsExpression S)) :=
  answers_lexeme fun here _ => by
    split
    · next operator =>
      obtain ⟨s, rfl, other⟩ := marks here operator
      exact (answers_skip (Lexeme.isPassable_symbol other)).bind fun _ _ => ho.bind fun right hr =>
        (answers_binaryNode (S.texts.constant _) hl hr).some
    · exact answers_none

theorem answers_chain {isOperator : Lexeme → Bool} (marks : IsMarkClass isOperator)
    {operand : Parser Expression} (ho : Answers S operand (HoldsExpression S)) :
    Answers S (chain isOperator operand) (HoldsExpression S) :=
  ho.bind fun _ hfirst => answers_repeatFrom (answers_extendBy marks ho) hfirst

theorem answers_sum (h : level.Answers S) : Answers S (sum level) (HoldsExpression S) :=
  answers_chain isMarkClass_sumSign (answers_chain isMarkClass_productSign h.operand)

theorem answers_moreExpressions {p : Parser Expression}
    (hp : Answers S p (HoldsExpression S)) :
    Answers S (moreExpressions p) (∀ e ∈ ·, HoldsExpression S e) := by
  refine answers_many ((answers_tryMark (by nofun)).bind fun _ _ => ?_)
  split
  · exact hp.some
  · exact answers_none

theorem answers_expressionList {p : Parser Expression}
    (hp : Answers S p (HoldsExpression S)) :
    Answers S (expressionList p) (∀ e ∈ ·, HoldsExpression S e) :=
  answers_isAt (answers_pure nofun)
    (hp.bind fun _ hfirst => (answers_moreExpressions hp).bind fun _ hmore =>
      answers_pure (List.forall_mem_cons.mpr ⟨hfirst, hmore⟩))

/-! ## Membership tests -/

/-- Whether a membership test opens at a cursor: its list stands behind one keyword or behind two. -/
def AtMembership : Bool → Cursor → Prop
  | true, c => c.token.lexeme.keyword? = some .NOT ∧ c.advance.token.lexeme.keyword? = some .IN
  | false, c => c.token.lexeme.keyword? = some .IN

theorem atMembership_of_membership? {c c' : Cursor} {negated : Bool}
    (read : membership? c = .ok (some negated, c')) : AtMembership negated c' := by
  obtain ⟨plain, c₁, first, rest⟩ := bind_eq_ok.mp read
  obtain ⟨rfl, rfl⟩ := Prod.mk.inj (Except.ok.inj first)
  split at rest
  · next isIn =>
    obtain ⟨same, rfl⟩ := Prod.mk.inj (Except.ok.inj rest)
    obtain rfl := Option.some.inj same
    exact beq_iff_eq.mp isIn
  obtain ⟨isNot, c₂, second, rest⟩ := bind_eq_ok.mp rest
  obtain ⟨rfl, rfl⟩ := Prod.mk.inj (Except.ok.inj second)
  obtain ⟨next, c₃, third, rest⟩ := bind_eq_ok.mp rest
  obtain ⟨rfl, rfl⟩ := Prod.mk.inj (Except.ok.inj third)
  split at rest
  · next both =>
    obtain ⟨same, rfl⟩ := Prod.mk.inj (Except.ok.inj rest)
    obtain rfl := Option.some.inj same
    rw [Bool.and_eq_true, beq_iff_eq, beq_iff_eq] at both
    exact both
  · cases (Prod.mk.inj (Except.ok.inj rest)).1

theorem answers_membership? : Answers S membership? fun _ => True :=
  .drop fun _ => by
    split
    · exact answers_pure trivial
    · refine .drop fun _ => .followingLexeme fun _ => ?_
      split
      · exact answers_pure trivial
      · exact answers_pure trivial

theorem answersIf_memberList {p : Parser Expression} (hp : Answers S p (HoldsExpression S))
    (negated : Bool) {left : Expression} (hl : HoldsExpression S left) :
    AnswersIf S (AtMembership negated) (memberList p negated left) (HoldsExpression S) := by
  have passes : ∀ {A : Cursor → Prop} (k : Keyword), k ≠ .BASE →
      (∀ c, A c → c.token.lexeme.keyword? = some k) → AnswersIf S A skip fun _ => True :=
    fun k other stands => answers_pass.weaken fun c here =>
      Lexeme.isPassable_of_keyword? (stands c here) other
  have list : AnswersIf S (AtMembership false) (do
      skip
      mark .lparen .openIn
      let items ← expressionList p
      mark .rparen .closeIn
      pure (.member negated (left :: items) ⟨left.span.start, ← position⟩))
      (HoldsExpression S) :=
    (passes .IN (by nofun) fun _ here => here).bind fun _ _ =>
      (answers_mark (by nofun) _).bind fun _ _ => (answers_expressionList hp).bind fun items hitems =>
        (answers_mark (by nofun) _).bind fun _ _ => .position fun _ => answers_pure
          ⟨TextClass.keeps_nil, hl, Expression.everywhereAll_iff.mpr hitems⟩
  unfold memberList
  split
  · next isNegated =>
    subst isNegated
    refine (passes .NOT (by nofun) fun _ (here : AtMembership true _) => here.1).bindIf
      (B := fun _ => AtMembership false) (fun c _ c' _ here read => ?_) fun _ _ => list
    obtain rfl : c.advance = c' := (Prod.mk.inj (Except.ok.inj read)).2
    exact here.2
  · next plain =>
    rw [Bool.not_eq_true] at plain
    exact plain ▸ list

theorem answers_relational (h : level.Answers S) {p : Parser Expression}
    (hp : Answers S p (HoldsExpression S)) :
    Answers S (relational level p) (HoldsExpression S) :=
  (answers_sum h).bind fun left hl =>
    (answers_extendBy isMarkClass_comparison (answers_sum h) left hl).bind fun found hfound => by
      cases found with
      | some comparison => exact answers_pure (hfound comparison rfl)
      | none =>
          refine answers_membership?.bindIf
            (B := fun test c => ∀ negated, test = some negated → AtMembership negated c)
            (fun c test c' _ _ read negated same => ?_) fun test _ => ?_
          · exact atMembership_of_membership? (same ▸ read)
          cases test with
          | some negated =>
              exact (answersIf_memberList hp negated hl).weaken fun _ here => here negated rfl
          | none => exact answers_pure hl

theorem answers_expressionUpTo (h : level.Answers S) (bound : Nat) :
    Answers S (expressionUpTo level bound) (HoldsExpression S) := by
  induction bound with
  | zero => exact answers_expected _
  | succ bound ih =>
      exact answers_chain (isMarkClass_symbol (by nofun))
        (answers_chain (isMarkClass_symbol (by nofun)) (answers_relational h ih))

theorem answers_expression (h : level.Answers S) :
    Answers S (expression level) (HoldsExpression S) :=
  .remaining fun _ => answers_expressionUpTo h _

theorem answers_bracketedExpression (h : level.Answers S) :
    Answers S (bracketedExpression level) (HoldsExpression S) :=
  (answers_mark (by nofun) _).bind fun _ _ => (answers_expression h).bind fun _ he =>
    (answers_mark (by nofun) _).bind fun _ _ => answers_pure he

/-! ## Calls -/

theorem answers_callArguments (h : level.Answers S) :
    Answers S (callArguments level) (∀ e ∈ ·, HoldsExpression S e) :=
  (answers_expressionList (answers_expression h)).bind fun _ hargs =>
    (answers_mark (by nofun) _).bind fun _ _ => answers_pure hargs

theorem answers_builtinCall (h : level.Answers S) {name : Text} (hname : S.texts.Holds name)
    (start : Nat) : Answers S (builtinCall level name start) (HoldsExpression S) :=
  (answers_mark (by nofun) _).bind fun _ _ => (answers_callArguments h).bind fun _ hargs =>
    .position fun _ => answers_pure ⟨TextClass.keeps_singleton.mpr hname, trivial,
      Expression.everywhereAll_iff.mpr hargs⟩

theorem answers_aggregateArgument (h : level.Answers S) (name : Text) :
    Answers S (aggregateArgument level name) fun r => ∀ e ∈ r.2, HoldsExpression S e := by
  have one : Answers S (do
      let arg ← expression level
      pure (false, [arg])) fun r : Bool × List Expression =>
        ∀ e ∈ r.2, HoldsExpression S e :=
    (answers_expression h).bind fun arg harg => answers_pure (List.forall_mem_singleton.mpr harg)
  unfold aggregateArgument
  refine answers_isAt ?_ ?_
  · split
    · exact (answers_skip rfl).bind fun _ _ => answers_pure nofun
    · exact one.at
  · rw [Bool.and_false]
    exact one

theorem answers_separatorText : Answers S (do
      mark .equal .equalAfterSeparator
      match ← lexeme with
      | .string value _ =>
        skip
        pure (some value)
      | _ => expected .separatorString) (IfSome S.texts.Holds) :=
  (answers_mark (by nofun) _).bind fun _ _ => answers_lexeme fun here keeps => by
    split
    · exact (answers_skip rfl).bind fun _ _ =>
        answers_pure (ifSome_some (TextClass.keeps_singleton.mp keeps))
    · exact answers_expected _

theorem answers_separator? (name : Text) : Answers S (separator? name) (IfSome S.texts.Holds) := by
  unfold separator?
  refine answers_isAt ?_ ?_
  · split
    · refine (answers_skip rfl).bind fun _ _ => answers_lexeme fun here _ => ?_
      split
      · split
        · exact (answers_skip rfl).bind fun _ _ => answers_separatorText
        · exact (answers_expected (P := fun _ => True) _).bind fun _ _ => answers_separatorText
      · exact (answers_expected (P := fun _ => True) _).bind fun _ _ => answers_separatorText
    · exact answers_none
  · rw [Bool.and_false]
    exact answers_none

theorem answers_aggregateCall (h : level.Answers S) {name : Text} (hname : S.texts.Holds name)
    (start : Nat) : Answers S (aggregateCall level name start) (HoldsExpression S) :=
  (answers_mark (by nofun) _).bind fun _ _ => (answers_tryKeyword (by nofun)).bind fun _ _ =>
    (answers_aggregateArgument h name).bind fun _ hr => (answers_separator? name).bind
      fun separator hsep => (answers_mark (by nofun) _).bind fun _ _ => .position fun _ => by
        refine answers_pure ⟨TextClass.keeps_cons hname fun s member => ?_,
          Expression.everywhereAll_iff.mpr hr⟩
        exact hsep s (Option.mem_toList.mp member)

theorem answersAt_namedCall (h : level.Answers S) {spelled : Text}
    (hs : S.texts.Holds spelled) :
    AnswersAt S (.identifier spelled) (namedCall level spelled) (HoldsExpression S) :=
  .position fun start => .followingLexeme fun _ => by
    split
    · refine (answers_skip rfl).bind fun _ _ => ?_
      split
      · exact answers_aggregateCall h (S.texts.toUpper hs) start
      · exact answers_builtinCall h (S.texts.toUpper hs) start
    · exact answers_fail (S.texts.append (S.texts.append (S.texts.constant _) hs)
        (S.texts.constant _))

theorem answers_iriExpression (h : level.Answers S) :
    Answers S (iriExpression level) (HoldsExpression S) := by
  unfold iriExpression
  rw [h.namespaces]
  refine .position fun _ => answers_iriTerm.bind fun t ht =>
    (answers_tryMark (by nofun)).bind fun _ _ => ?_
  split
  · exact (answers_tryKeyword (by nofun)).bind fun _ _ => (answers_callArguments h).bind
      fun _ hargs => .position fun _ => answers_pure
        ⟨TextClass.keeps_nil, ht, Expression.everywhereAll_iff.mpr hargs⟩
  · exact .position fun _ => answers_pure ⟨TextClass.keeps_nil, ht⟩

theorem answersAt_existsTest (h : level.Answers S) {here : Lexeme}
    (isExists : here.keyword? = some .EXISTS) (negated : Bool) (start : Nat) :
    AnswersAt S here (existsTest level negated start) (HoldsExpression S) :=
  (answers_skipKeyword isExists (by nofun)).bind fun _ _ => (h.group .group trivial).bind fun _ hg =>
    .position fun _ => answers_pure ⟨TextClass.keeps_nil, hg⟩

theorem answers_termExpression (h : level.Answers S) :
    Answers S (termExpression level) (HoldsExpression S) := by
  unfold termExpression
  rw [h.namespaces]
  exact .position fun _ => answers_varOrTerm.bind fun _ ht => .position fun _ =>
    answers_pure ⟨TextClass.keeps_nil, ht⟩

theorem answers_primaryExpression (h : level.Answers S) :
    Answers S (primaryExpression level) (HoldsExpression S) :=
  AnswersIf.position fun start => answers_lexeme fun here keeps => by
    split
    · exact (answers_bracketedExpression h).at
    · refine (answers_skipKeyword rfl (by nofun)).bind fun _ _ => answers_of_at fun _ => ?_
      exact .isAtKeyword (fun isExists => answersAt_existsTest h isExists _ _) (answers_expected _)
    · exact answersAt_existsTest h rfl _ _
    · exact answersAt_namedCall h (TextClass.keeps_singleton.mp keeps)
    · exact (answers_iriExpression h).at
    · exact (answers_iriExpression h).at
    · exact (answers_termExpression h).at
    · exact (answers_termExpression h).at
    · exact (answers_termExpression h).at
    · exact (answers_termExpression h).at
    · exact (answers_termExpression h).at
    · exact answers_expected _

theorem answers_operandWithin (h : level.Answers S) :
    Answers S (operandWithin level) (HoldsExpression S) :=
  AnswersIf.position fun _ => answers_lexeme fun here _ => by
    split
    · next operator =>
      obtain ⟨s, rfl, other⟩ := isMarkClass_prefixOperator here operator
      exact (answers_skip (Lexeme.isPassable_symbol other)).bind fun _ _ =>
        h.operand.bind fun _ harg => .position fun _ =>
          answers_pure ⟨TextClass.keeps_singleton.mpr (S.texts.constant _), harg, trivial⟩
    · exact (answers_primaryExpression h).at

theorem answers_atConstraint : Answers S atConstraint fun _ => True :=
  .drop fun _ => .followingLexeme fun _ => answers_pure trivial

theorem answers_constraint (h : level.Answers S) :
    Answers S (constraint level) (HoldsExpression S) :=
  answers_atConstraint.bind fun _ _ => by
    split
    · exact answers_primaryExpression h
    · exact answers_expected _

end SparqlMetrics.Grammar
