import SparqlMetrics.Proofs.Grammar.LegalQueries
import SparqlMetrics.Proofs.Tree.Depth

/-!
# How deep the trees are that are read

Every reader adds a fixed number of levels to what the readers one level further in return, so the
nesting that is allowed bounds the depth of what is read. Two constructions escape that count. A loop
joins as many operands to the left as there are, so a run counts as one level. The items of a
membership list are read at the level of their expression, so a membership test in the list of
another one brings the levels of a whole expression around it. Main statement:
`shallow_queryUnit`.
-/
namespace SparqlMetrics.Grammar

open SparqlMetrics.Parser

/-- Readers further in that yield trees within a bound. -/
structure Level.Shallow (b : Nat) (level : Level) : Prop where
  legal : level.Legal
  operand : Yields level.operand (Expression.Within b)
  group : ∀ kind, Yields (level.group kind) (Group.Within b)
  pathGroup : Yields level.pathGroup (Path.Within b)
  blankNode : Yields level.blankNode fun r => ∀ e ∈ r.2, Element.Within b e

variable {b : Nat} {level : Level}

section Expressions

theorem shallow_binaryNode {op : Text} {left right : Expression} {P : Expression → Prop}
    (h : ∀ span, P (.binary op [left, right] span)) : Yields (binaryNode op left right) P :=
  yields_position.bind fun _ _ => yields_pure (h _)

theorem shallow_extendBy {isOperator : Lexeme → Bool} {like : Text}
    (known : ∀ here, isOperator here = true → precedence here.text = precedence like)
    (chained : precedence like ≠ comparisonPrecedence) {operand : Parser Expression}
    (ho : Yields operand (Expression.Within b)) (left : Expression)
    (hl : left.LeadsWithin like (b + 1)) :
    Yields (extendBy isOperator operand left) (IfSome (Expression.LeadsWithin like (b + 1))) :=
  yields_lexeme.bind fun here _ => by
    split
    · next operator =>
      exact yields_skip.bind fun _ _ => ho.bind fun right hr =>
        (shallow_binaryNode fun _ => hl.extend chained (known here operator) hr).some
    · exact yields_none

/-- A chain of operands is one level deeper than its deepest operand. -/
theorem shallow_chain {isOperator : Lexeme → Bool} {like : Text}
    (known : ∀ here, isOperator here = true → precedence here.text = precedence like)
    (chained : precedence like ≠ comparisonPrecedence) {operand : Parser Expression}
    (ho : Yields operand (Expression.Within b)) :
    Yields (chain isOperator operand) (Expression.Within (b + 1)) :=
  ho.bind fun _ hfirst =>
    (yields_repeatFrom (shallow_extendBy known chained ho) (hfirst.leads like)).mono
      fun _ he => he.within

theorem precedence_productSign (here : Lexeme) (h : isProductSign here = true) :
    precedence here.text = precedence (utf8 "*") := by
  simp only [isProductSign, Bool.or_eq_true, beq_iff_eq] at h
  rcases h with rfl | rfl <;> decide

theorem precedence_sumSign (here : Lexeme) (h : isSumSign here = true) :
    precedence here.text = precedence (utf8 "+") := by
  simp only [isSumSign, Bool.or_eq_true, beq_iff_eq] at h
  rcases h with rfl | rfl <;> decide

theorem precedence_andSign (here : Lexeme) (h : (here == .symbol .andAnd) = true) :
    precedence here.text = precedence (utf8 "&&") := by
  rw [beq_iff_eq.mp h]
  decide

theorem precedence_orSign (here : Lexeme) (h : (here == .symbol .orOr) = true) :
    precedence here.text = precedence (utf8 "||") := by
  rw [beq_iff_eq.mp h]
  decide

theorem shallow_sum (h : level.Shallow b) : Yields (sum level) (Expression.Within (b + 2)) :=
  shallow_chain precedence_sumSign (by decide)
    (shallow_chain precedence_productSign (by decide) h.operand)

theorem shallow_connectives {isOperator : Lexeme → Bool} {like : Text}
    (known : ∀ here, isOperator here = true → precedence here.text = precedence like)
    (connective : precedence like < comparisonPrecedence) {operand : Parser Expression}
    (ho : Yields operand (Expression.ShowsWithin b)) :
    Yields (chain isOperator operand) (Expression.ShowsWithin (b + 1)) := by
  refine ho.bind fun first hfirst => Yields.mono (P := Expression.LeadsShowing like (b + 1))
    (yields_repeatFrom (fun left hl => ?_) (hfirst.leads like)) fun _ he => he.shows
  refine yields_lexeme.bind fun here _ => ?_
  split
  · next operator =>
    exact yields_skip.bind fun _ _ => ho.bind fun right hr =>
      (shallow_binaryNode fun _ => hl.extend connective (known here operator) hr).some
  · exact yields_none

theorem shallow_moreExpressions {p : Parser Expression} {P : Expression → Prop} (hp : Yields p P) :
    Yields (moreExpressions p) (∀ e ∈ ·, P e) := by
  refine Yields.many ?_
  refine (yields_tryMark _).bind fun _ _ => ?_
  split
  · exact hp.some
  · exact yields_none

theorem shallow_expressionList {p : Parser Expression} {P : Expression → Prop} (hp : Yields p P) :
    Yields (expressionList p) (∀ e ∈ ·, P e) :=
  (yields_isAt _).bind fun _ _ => by
    split
    · exact yields_pure (by simp)
    · exact hp.bind fun first hfirst => (shallow_moreExpressions hp).bind fun more hmore =>
        yields_pure (List.forall_mem_cons.mpr ⟨hfirst, hmore⟩)

theorem shallow_memberList {p : Parser Expression} (hp : Yields p (Expression.ShowsWithin b))
    (negated : Bool) {left : Expression} (hl : left.Within b) :
    Yields (memberList p negated left) fun e : Expression =>
      e.showsTest = true ∧ e.Within (b + 1) := by
  have list : Yields (do
      skip
      mark .lparen .openIn
      let items ← expressionList p
      mark .rparen .closeIn
      pure (.member negated (left :: items) ⟨left.span.start, ← position⟩))
      fun e : Expression => e.showsTest = true ∧ e.Within (b + 1) :=
    yields_skip.bind fun _ _ => (yields_mark _ _).bind fun _ _ =>
      (shallow_expressionList hp).bind fun items hitems => (yields_mark _ _).bind fun _ _ =>
        yields_position.bind fun _ _ => yields_pure
          ⟨rfl, Expression.within_member hl hitems negated _⟩
  unfold memberList
  split
  · exact yields_skip.bind fun _ _ => list
  · exact list

theorem shallow_comparison {sums : Parser Expression} (hs : Yields sums (Expression.Within b))
    {left : Expression} (hl : left.Within b) :
    Yields (extendBy isComparison sums left) (IfSome (Expression.Within (b + 1))) :=
  yields_lexeme.bind fun here _ => by
    split
    · exact yields_skip.bind fun _ _ => hs.bind fun right hr =>
        (shallow_binaryNode fun span => (hl.leads here.text).binary rfl hr span).some
    · exact yields_none

/-- The items of a membership test are whole expressions, so the test is as deep as they are when
none of them shows one. -/
theorem shallow_relational (h : level.Shallow b) {p : Parser Expression}
    (hp : Yields p (Expression.ShowsWithin (b + 5))) :
    Yields (relational level p) (Expression.ShowsWithin (b + 3)) :=
  (shallow_sum h).bind fun left hl =>
    (shallow_comparison (shallow_sum h) hl).bind fun found hfound => by
      cases found with
      | some comparison => exact yields_pure (hfound comparison rfl).shows
      | none =>
          have wide : left.Within (b + 3) := hl.mono (by omega)
          have operand : left.Within (b + 5) := hl.mono (by omega)
          refine yields_membership?.bind fun test _ => ?_
          cases test with
          | some negated =>
              refine (shallow_memberList hp negated operand).mono fun e he => ?_
              exact ⟨he.2, fun plain => absurd (he.1.symm.trans plain) (by decide)⟩
          | none => exact yields_pure wide.shows

/-- The bound does not grow with the number of membership lists that may nest. -/
theorem shallow_expressionUpTo (h : level.Shallow b) (bound : Nat) :
    Yields (expressionUpTo level bound) (Expression.ShowsWithin (b + 5)) := by
  induction bound with
  | zero => exact yields_expected _
  | succ bound ih =>
      exact shallow_connectives precedence_orSign (by decide)
        (shallow_connectives precedence_andSign (by decide) (shallow_relational h ih))

theorem shallow_expression (h : level.Shallow b) :
    Yields (expression level) (Expression.Within (b + 8)) :=
  yields_remaining.bind fun _ _ => (shallow_expressionUpTo h _).mono fun _ he => he.1

theorem shallow_bracketedExpression (h : level.Shallow b) :
    Yields (bracketedExpression level) (Expression.Within (b + 8)) :=
  (yields_mark _ _).bind fun _ _ => (shallow_expression h).bind fun _ he =>
    (yields_mark _ _).bind fun _ _ => yields_pure he

theorem shallow_callArguments (h : level.Shallow b) :
    Yields (callArguments level) (∀ e ∈ ·, Expression.Within (b + 8) e) :=
  (shallow_expressionList (shallow_expression h)).bind fun _ hargs =>
    (yields_mark _ _).bind fun _ _ => yields_pure hargs

theorem shallow_builtinCall (h : level.Shallow b) (name : Text) (start : Nat) :
    Yields (builtinCall level name start) (Expression.Within (b + 9)) :=
  (yields_mark _ _).bind fun _ _ => (shallow_callArguments h).bind fun _ hargs =>
    yields_position.bind fun _ _ => yields_pure (Expression.within_all hargs).step

theorem shallow_aggregateArgument (h : level.Shallow b) (name : Text) :
    Yields (aggregateArgument level name) fun r => ∀ e ∈ r.2, Expression.Within (b + 8) e := by
  have one : Yields (do
      let arg ← expression level
      pure (false, [arg])) fun r : Bool × List Expression =>
      ∀ e ∈ r.2, Expression.Within (b + 8) e :=
    (shallow_expression h).bind fun arg harg => yields_pure (List.forall_mem_singleton.mpr harg)
  unfold aggregateArgument
  refine (yields_isAt _).bind fun _ _ => ?_
  split
  · exact yields_skip.bind fun _ _ => yields_pure (List.forall_mem_nil _)
  · exact one

theorem shallow_aggregateCall (h : level.Shallow b) (name : Text) (start : Nat) :
    Yields (aggregateCall level name start) (Expression.Within (b + 9)) :=
  (yields_mark _ _).bind fun _ _ => (yields_tryKeyword _).bind fun _ _ =>
    (shallow_aggregateArgument h name).bind fun _ hargs => (yields_separator? name).bind fun _ _ =>
      (yields_mark _ _).bind fun _ _ => yields_position.bind fun _ _ =>
        yields_pure (Expression.within_all hargs).step

theorem shallow_namedCall (h : level.Shallow b) (spelled : Text) :
    Yields (namedCall level spelled) (Expression.Within (b + 9)) :=
  yields_position.bind fun start _ => yields_followingLexeme.bind fun next _ => by
    split
    · refine yields_skip.bind fun _ _ => ?_
      split
      · exact shallow_aggregateCall h _ start
      · exact shallow_builtinCall h _ start
    · exact yields_fail _

theorem within_term (t : Term) (span : Span) : (Expression.term t span).Within (b + 9) :=
  Depth.within_step.mono (by omega : 0 + 1 ≤ b + 9)

theorem shallow_iriExpression (h : level.Shallow b) :
    Yields (iriExpression level) (Expression.Within (b + 9)) :=
  yields_position.bind fun _ _ => (yields_iriTerm h.legal.namespaces).bind fun t _ =>
    (yields_tryMark _).bind fun _ _ => by
      split
      · exact (yields_tryKeyword _).bind fun _ _ => (shallow_callArguments h).bind fun args hargs =>
          yields_position.bind fun _ _ => yields_pure (Expression.within_all hargs).step
      · exact yields_position.bind fun _ _ => yields_pure (within_term t _)

theorem shallow_existsTest (h : level.Shallow b) (negated : Bool) (start : Nat) :
    Yields (existsTest level negated start) (Expression.Within (b + 9)) :=
  yields_skip.bind fun _ _ => (h.group .group).bind fun g hg =>
    yields_position.bind fun _ _ => yields_pure (hg.step.mono (by omega))

theorem shallow_termExpression (h : level.Shallow b) :
    Yields (termExpression level) (Expression.Within (b + 9)) :=
  yields_position.bind fun _ _ => (yields_varOrTerm h.legal.namespaces).bind fun t _ =>
    yields_position.bind fun _ _ => yields_pure (within_term t _)

theorem shallow_primaryExpression (h : level.Shallow b) :
    Yields (primaryExpression level) (Expression.Within (b + 9)) :=
  yields_position.bind fun start _ => yields_lexeme.bind fun here _ => by
    split
    · exact (shallow_bracketedExpression h).mono fun _ he => he.mono (by omega)
    · refine yields_skip.bind fun _ _ => (yields_isAtKeyword _).bind fun _ _ => ?_
      split
      · exact shallow_existsTest h _ _
      · exact yields_expected _
    · exact shallow_existsTest h _ _
    · exact shallow_namedCall h _
    · exact shallow_iriExpression h
    · exact shallow_iriExpression h
    · exact shallow_termExpression h
    · exact shallow_termExpression h
    · exact shallow_termExpression h
    · exact shallow_termExpression h
    · exact shallow_termExpression h
    · exact yields_expected _

theorem shallow_operandWithin (h : level.Shallow b) :
    Yields (operandWithin level) (Expression.Within (b + 9)) :=
  yields_position.bind fun _ _ => yields_lexeme.bind fun here _ => by
    split
    · exact yields_skip.bind fun _ _ => h.operand.bind fun _ harg => yields_position.bind fun _ _ =>
        yields_pure ((harg.max Depth.within_zero).step.mono (by omega))
    · exact shallow_primaryExpression h

theorem shallow_constraint (h : level.Shallow b) :
    Yields (constraint level) (Expression.Within (b + 9)) :=
  yields_atConstraint.bind fun _ _ => by
    split
    · exact shallow_primaryExpression h
    · exact yields_expected _

end Expressions

section Paths
variable {ns : Namespaces}

theorem shallow_joinAfter {s : Symbol} {how : PathJoin} {part : Parser Path}
    (hp : Yields part (Path.Within b)) (left : Path) (hl : left.LeadsWithin how (b + 1)) :
    Yields (joinAfter s how part left) (IfSome (Path.LeadsWithin how (b + 1))) :=
  yields_joinAfter hp (fun _ _ hl hr => hl.join hr) left hl

/-- Parts that are joined are one level deeper than the deepest of them. -/
theorem shallow_joined {s : Symbol} (how : PathJoin) {part : Parser Path}
    (hp : Yields part (Path.Within b)) {first : Path} (hfirst : first.Within b) :
    Yields (repeatFrom (joinAfter s how part) first) (Path.Within (b + 1)) :=
  (yields_repeatFrom (shallow_joinAfter hp) (hfirst.leads how)).mono fun _ h => h.within

theorem shallow_iriStep (h : ns.Legal) : Yields (iriStep ns) (Path.Within 1) :=
  (yields_iriStep h).mono fun _ ⟨_, _, same, _⟩ => same ▸ Depth.within_step

theorem shallow_setMember (h : ns.Legal) : Yields (setMember ns) (Path.Within 2) :=
  (yields_tryMark _).bind fun _ _ => by
    split
    · exact (shallow_iriStep h).map fun _ hp => hp.step
    · exact (shallow_iriStep h).mono fun _ hp => hp.mono (by omega)

theorem shallow_negatedSet (h : ns.Legal) : Yields (negatedSet ns) (Path.Within 4) := by
  have members : Yields (setMembers ns) (Path.Within 3) :=
    (yields_isAt _).bind fun _ _ => by
      split
      · exact yields_pure (Depth.within_step.mono (by omega : 0 + 1 ≤ 3))
      · exact (shallow_setMember h).bind fun _ hp =>
          shallow_joined .alternative (shallow_setMember h) hp
  refine (yields_tryMark _).bind fun _ _ => ?_
  split
  · exact members.bind fun _ hp => (yields_mark _ _).bind fun _ _ => yields_pure hp.step
  · exact (shallow_setMember h).map fun _ hp => hp.step.mono (by omega)

theorem shallow_pathPrimary (h : level.Shallow b) :
    Yields (pathPrimary level) (Path.Within (b + 4)) := by
  have step : Yields (iriStep level.namespaces) (Path.Within (b + 4)) :=
    (shallow_iriStep h.legal.namespaces).mono fun _ hp => hp.mono (by omega)
  refine yields_lexeme.bind fun here _ => ?_
  split
  · exact yields_skip.bind fun _ _ =>
      (shallow_negatedSet h.legal.namespaces).mono fun _ hp => hp.mono (by omega)
  · exact h.pathGroup.mono fun _ hp => hp.mono (by omega)
  · exact step
  · exact step
  · split
    · exact step
    · exact yields_expected _

theorem shallow_pathElement (h : level.Shallow b) :
    Yields (pathElement level) (Path.Within (b + 5)) :=
  (shallow_pathPrimary h).bind fun _ hp => yields_lexeme.bind fun here _ => by
    split
    · exact yields_skip.bind fun _ _ => yields_pure hp.step
    · exact yields_pure (hp.mono (by omega))

theorem shallow_pathPart (h : level.Shallow b) : Yields (pathPart level) (Path.Within (b + 6)) :=
  (yields_tryMark _).bind fun _ _ => by
    split
    · exact (shallow_pathElement h).map fun _ hp => hp.step
    · exact (shallow_pathElement h).mono fun _ hp => hp.mono (by omega)

theorem shallow_pathSequence (h : level.Shallow b) :
    Yields (pathSequence level) (Path.Within (b + 7)) :=
  (shallow_pathPart h).bind fun _ hp => shallow_joined .sequence (shallow_pathPart h) hp

theorem shallow_path (h : level.Shallow b) : Yields (path level) (Path.Within (b + 8)) :=
  (shallow_pathSequence h).bind fun _ hp => shallow_joined .alternative (shallow_pathSequence h) hp

theorem shallow_bracketedPath (h : level.Shallow b) :
    Yields (bracketedPath level) (Path.Within (b + 8)) :=
  yields_skip.bind fun _ _ => (shallow_path h).bind fun _ hp =>
    (yields_mark _ _).bind fun _ _ => yields_pure hp

end Paths

section Triples

def Verb.Within (b : Nat) (v : Verb) : Prop :=
  ∀ subject object span, (v.element subject object span).Within b

theorem shallow_verb (h : level.Shallow b) : Yields (verb level) (Verb.Within (b + 8)) :=
  yields_lexeme.bind fun here _ => by
    split
    · exact (yields_varOrTerm h.legal.namespaces).map fun _ _ _ _ _ => Depth.within_zero
    · refine (shallow_path h).map fun p hp _ _ _ => ?_
      cases p with
      | step t => exact Depth.within_zero
      | _ => exact hp

theorem shallow_object (h : level.Shallow b) :
    Yields (object level) fun r => ∀ e ∈ r.2, Element.Within (b + 8) e :=
  yields_lexeme.bind fun here _ => by
    split
    · exact h.blankNode.mono fun _ hr e he => (hr e he).mono (by omega)
    · exact yields_fail _
    · exact (yields_varOrTerm h.legal.namespaces).bind fun _ _ => yields_pure (List.forall_mem_nil _)

theorem shallow_objectElements (h : level.Shallow b) (subject : Term) {v : Verb}
    (hv : v.Within (b + 8)) :
    Yields (objectElements level subject v) (∀ e ∈ ·, Element.Within (b + 8) e) :=
  (shallow_object h).bind fun _ hr => yields_position.bind fun _ _ => yields_pure
    (List.forall_mem_append.mpr ⟨hr, List.forall_mem_singleton.mpr (hv _ _ _)⟩)

theorem shallow_property (h : level.Shallow b) (subject : Term) :
    Yields (property level subject) (∀ e ∈ ·, Element.Within (b + 8) e) :=
  (shallow_verb h).bind fun _ hv => (shallow_objectElements h subject hv).bind fun _ hfirst => by
    refine Yields.bind (Yields.many ?_) fun more hmore =>
      yields_pure (forall_mem_append_flatten hfirst hmore)
    refine (yields_tryMark _).bind fun _ _ => ?_
    split
    · exact (shallow_objectElements h subject hv).some
    · exact yields_none

theorem shallow_nextProperty (h : level.Shallow b) (subject : Term) :
    Yields (nextProperty level subject) (IfSome (∀ e ∈ ·, Element.Within (b + 8) e)) :=
  (yields_isAt _).bind fun _ _ => by
    split
    · refine yields_skipSemicolons.bind fun _ _ => yields_lexeme.bind fun here _ => ?_
      split
      · exact (shallow_property h subject).some
      · exact yields_none
    · exact yields_none

theorem shallow_propertyList (h : level.Shallow b) (subject : Term) (required : Bool) :
    Yields (propertyList level subject required) (∀ e ∈ ·, Element.Within (b + 8) e) :=
  yields_lexeme.bind fun here _ => by
    split
    · exact (shallow_property h subject).bind fun _ hfirst =>
        (shallow_nextProperty h subject).many.bind fun _ hmore =>
          yields_pure (forall_mem_append_flatten hfirst hmore)
    split
    · exact yields_expected _
    · exact yields_pure (List.forall_mem_nil _)

theorem shallow_bracketedBlankNode (h : level.Shallow b) :
    Yields (bracketedBlankNode level) fun r => ∀ e ∈ r.2, Element.Within (b + 8) e :=
  yields_position.bind fun start _ => yields_skip.bind fun _ _ =>
    (yields_freshBlankNode start).bind fun node _ => (yields_tryMark _).bind fun _ _ => by
      split
      · exact yields_position.bind fun _ _ => yields_pure (List.forall_mem_nil _)
      · exact (shallow_propertyList h node true).bind fun _ hp => (yields_mark _ _).bind fun _ _ =>
          yields_position.bind fun _ _ => yields_pure hp

theorem shallow_triplesSameSubject (h : level.Shallow b) :
    Yields (triplesSameSubject level) (∀ e ∈ ·, Element.Within (b + 8) e) :=
  yields_lexeme.bind fun here _ => by
    split
    · exact yields_fail _
    · refine yields_followingLexeme.bind fun next _ => h.blankNode.bind fun r hr => ?_
      refine (shallow_propertyList h r.1 _).bind fun properties hp => yields_pure ?_
      exact List.forall_mem_append.mpr ⟨fun e he => (hr e he).mono (by omega), hp⟩
    · exact (yields_varOrTerm h.legal.namespaces).bind fun t _ => shallow_propertyList h t true

end Triples

section Clauses

abbrev ProjectionWithin (b : Nat) (p : Projection) : Prop := ∀ e, p.value = some e → e.Within b

theorem shallow_projection? (h : level.Shallow b) :
    Yields (projection? level) (IfSome (ProjectionWithin (b + 8))) := by
  have named : Yields (namedProjection level) (ProjectionWithin (b + 8)) :=
    yields_position.bind fun _ _ => yields_skip.bind fun _ _ => (shallow_expression h).bind
      fun _ hv => (yields_keyword _ _).bind fun _ _ => (yields_variableName _).bind fun _ _ =>
        (yields_mark _ _).bind fun _ _ => yields_position.bind fun _ _ =>
          yields_pure fun _ same => Option.some.inj same ▸ hv
  refine yields_token.bind fun t _ => ?_
  split
  · exact yields_skip.bind fun _ _ => yields_pure (ifSome_some nofun)
  · exact named.some
  · exact yields_none

theorem shallow_selectClause (h : level.Shallow b) :
    Yields (selectClause level) (Form.Within (b + 8)) :=
  yields_skip.bind fun _ _ => yields_selectModifier.bind fun _ _ => (yields_tryMark _).bind
    fun _ _ => by
      split
      · exact yields_pure Depth.within_zero
      · refine (shallow_projection? h).many.bind fun items hitems => ?_
        split
        · exact yields_expected _
        · exact yields_pure (Projection.within_all hitems)

theorem shallow_template (h : level.Shallow b) :
    Yields (template level) (∀ e ∈ ·, Element.Within (b + 8) e) := by
  have triples (awaited : Bool) : Yields (templateTriples? level awaited)
      (IfSome fun r => ∀ e ∈ r.2, Element.Within (b + 8) e) := by
    unfold templateTriples?
    refine (yields_isAt _).bind fun _ _ => ?_
    split
    · exact yields_none
    · refine yields_atTriples.bind fun _ _ => ?_
      split
      · exact (shallow_triplesSameSubject h).bind fun _ hes => (yields_tryMark _).bind fun _ _ =>
          yields_pure (ifSome_some hes)
      · exact yields_expected _
  refine Yields.bind (P := fun r => ∀ e ∈ r.2, Element.Within (b + 8) e)
    (yields_repeatFrom (fun state hstate => ?_) (List.forall_mem_nil _)) fun _ hes =>
      (yields_mark _ _).bind fun _ _ => yields_pure hes
  refine (triples state.1).bind fun found hfound => ?_
  split
  · exact yields_pure (ifSome_some (List.forall_mem_append.mpr ⟨hstate, hfound _ rfl⟩))
  · exact yields_none

theorem shallow_whereClause (h : level.Shallow b) : Yields (whereClause level) (Group.Within b) :=
  (yields_tryKeyword _).bind fun _ _ => (yields_isAt _).bind fun _ _ => by
    split
    · exact h.group .group
    · exact yields_expected _

theorem shallow_variableCondition (h : level.Shallow b) :
    Yields (variableCondition level.namespaces) (Expression.Within (b + 9)) :=
  (yields_varOrTerm h.legal.namespaces).bind fun t _ => yields_pure (within_term t _)

theorem shallow_groupClause (h : level.Shallow b) :
    Yields (groupClause level) (∀ c ∈ ·, c.value.Within (b + 9)) := by
  have condition : Yields (groupCondition? level) (IfSome fun c => c.value.Within (b + 9)) := by
    refine yields_lexeme.bind fun here _ => ?_
    split
    · exact (shallow_variableCondition h).bind fun value hv => yields_pure (ifSome_some hv)
    · exact yields_skip.bind fun _ _ => (shallow_expression h).bind fun value hv =>
        yields_conditionName?.bind fun name _ => (yields_mark _ _).bind fun _ _ =>
          yields_pure (ifSome_some (hv.mono (by omega)))
    · refine yields_atConstraint.bind fun _ _ => ?_
      split
      · exact (shallow_constraint h).bind fun value hv => yields_pure (ifSome_some hv)
      · exact yields_none
  refine (yields_tryKeyword _).bind fun _ _ => ?_
  split
  · refine (yields_keyword _ _).bind fun _ _ => condition.many.bind fun conditions hc => ?_
    split
    · exact yields_expected _
    · exact yields_pure hc
  · exact yields_pure (List.forall_mem_nil _)

theorem shallow_havingClause (h : level.Shallow b) :
    Yields (havingClause level) (∀ e ∈ ·, Expression.Within (b + 9) e) :=
  (yields_tryKeyword _).bind fun _ _ => by
    split
    · refine Yields.bind (Yields.many (P := Expression.Within (b + 9)) ?_) fun conditions hc => ?_
      · refine yields_atConstraint.bind fun _ _ => ?_
        split
        · exact (shallow_constraint h).some
        · exact yields_none
      · split
        · exact yields_expected _
        · exact yields_pure hc
    · exact yields_pure (List.forall_mem_nil _)

theorem shallow_orderClause (h : level.Shallow b) :
    Yields (orderClause level) (∀ c ∈ ·, c.value.Within (b + 9)) := by
  have directed (direction : Direction) : Yields (do
      return some ⟨← bracketedExpression level, direction⟩)
      (IfSome fun c : OrderCondition => c.value.Within (b + 9)) :=
    (shallow_bracketedExpression h).bind fun value hv =>
      yields_pure (ifSome_some (hv.mono (by omega)))
  have condition : Yields (orderCondition? level) (IfSome fun c => c.value.Within (b + 9)) := by
    refine yields_lexeme.bind fun here _ => ?_
    split
    · exact yields_skip.bind fun _ _ => directed .ascending
    · exact yields_skip.bind fun _ _ => directed .descending
    · exact (shallow_variableCondition h).bind fun value hv => yields_pure (ifSome_some hv)
    · refine yields_atConstraint.bind fun _ _ => ?_
      split
      · exact (shallow_constraint h).bind fun value hv => yields_pure (ifSome_some hv)
      · exact yields_none
  refine (yields_tryKeyword _).bind fun _ _ => ?_
  split
  · refine (yields_keyword _ _).bind fun _ _ => condition.many.bind fun conditions hc => ?_
    split
    · exact yields_expected _
    · exact yields_pure hc
  · exact yields_pure (List.forall_mem_nil _)

structure Modifiers.Within (b : Nat) (m : Modifiers) : Prop where
  groupBy : ∀ c ∈ m.groupBy, c.value.Within b
  having : ∀ e ∈ m.having, e.Within b
  orderBy : ∀ c ∈ m.orderBy, c.value.Within b

theorem shallow_modifiers (h : level.Shallow b) :
    Yields (modifiers level) (Modifiers.Within (b + 9)) :=
  (shallow_groupClause h).bind fun _ hg => (shallow_havingClause h).bind fun _ hh =>
    (shallow_orderClause h).bind fun _ ho =>
      (yields_repeatFrom yields_bound? Bounds.legal_none).bind fun _ _ => yields_pure ⟨hg, hh, ho⟩

/-- The query that clauses within a bound make up. -/
theorem within_assemble {form : Form} {dataset : List DatasetClause} {root : Group} {m : Modifiers}
    {inScope values : Option InlineData} {span : Span} (hf : form.Within b) (hr : root.Within b)
    (hm : m.Within b) : (assemble form dataset root m inScope values span).Within b :=
  Query.within hf hr hm.groupBy hm.having hm.orderBy

theorem shallow_subSelect (h : level.Shallow b) :
    Yields (subSelect level) (Query.Within (b + 9)) :=
  yields_position.bind fun _ _ => (shallow_selectClause h).bind fun _ hf =>
    (shallow_whereClause h).bind fun _ hr => (shallow_modifiers h).bind fun _ hm =>
      (yields_trailingValues h.legal.namespaces).bind fun _ _ => yields_position.bind fun _ _ =>
        yields_pure (within_assemble (hf.mono (by omega)) (hr.mono (by omega)) hm)

end Clauses

section Groups

structure Draft.Within (b : Nat) (d : Draft) : Prop where
  elements : ∀ e ∈ d.elements, e.Within b
  children : ∀ g ∈ d.children, g.Within b

namespace Draft.Within
variable {d : Draft}

theorem addElements (h : d.Within b) {elements : List Element} (he : ∀ e ∈ elements, e.Within b) :
    (d.addElements elements).Within b :=
  ⟨List.forall_mem_append.mpr ⟨h.elements, he⟩, h.children⟩

theorem addChild (h : d.Within b) {child : Group} (hc : child.Within b) :
    (d.addChild child).Within b :=
  ⟨h.elements, List.forall_mem_append.mpr ⟨h.children, List.forall_mem_singleton.mpr hc⟩⟩

/-- A table of its own is a group without members. -/
theorem addData (h : d.Within (b + 1)) (data : InlineData) : (d.addData data).Within (b + 1) := by
  unfold Draft.addData
  split
  · exact ⟨h.elements, h.children⟩
  · exact h.addChild (Group.within (List.forall_mem_nil _) (List.forall_mem_nil _))

end Draft.Within

theorem shallow_groupOrUnion (h : level.Shallow b) :
    Yields (groupOrUnion level) (Group.Within (b + 1)) := by
  have more : Yields (moreAlternatives level) (∀ g ∈ ·, Group.Within b g) := by
    refine Yields.many ((yields_tryKeyword _).bind fun _ _ => ?_)
    split
    · exact (h.group .group).some
    · exact yields_none
  refine (h.group .group).bind fun first hfirst => more.bind fun rest hrest => ?_
  split
  · exact yields_pure (hfirst.mono (by omega))
  · exact yields_position.bind fun _ _ => yields_pure
      (Group.within (List.forall_mem_nil _) (List.forall_mem_cons.mpr ⟨hfirst, hrest⟩))

theorem shallow_filter (h : level.Shallow b) : Yields (filter level) (Element.Within (b + 9)) :=
  yields_position.bind fun _ _ => yields_skip.bind fun _ _ => (shallow_constraint h).bind
    fun _ hc => yields_position.bind fun _ _ => yields_pure hc

theorem shallow_binding (h : level.Shallow b) : Yields (binding level) (Element.Within (b + 8)) :=
  yields_position.bind fun _ _ => yields_skip.bind fun _ _ => (yields_mark _ _).bind fun _ _ =>
    (shallow_expression h).bind fun _ hv => (yields_keyword _ _).bind fun _ _ =>
      yields_bindTarget.bind fun _ _ => (yields_mark _ _).bind fun _ _ =>
        yields_position.bind fun _ _ => yields_pure hv

theorem shallow_namedGroup (h : level.Shallow b) (kind : Term → GroupKind) :
    Yields (namedGroup level kind) (Group.Within b) :=
  (yields_varOrIri h.legal.namespaces).bind fun name _ => h.group (kind name)

theorem shallow_triplesBlock (h : level.Shallow b) :
    Yields (triplesBlock level) (∀ e ∈ ·, Element.Within (b + 8) e) :=
  yields_lexeme.bind fun _ _ => yields_atTriples.bind fun _ _ => by
    split
    · refine (shallow_triplesSameSubject h).bind fun _ hes => (yields_tryMark _).bind fun _ _ => ?_
      split
      · exact yields_pure hes
      · refine yields_atTriples.bind fun _ _ => ?_
        split
        · exact yields_expected _
        · exact yields_pure hes
    · exact yields_fail _

theorem shallow_member? (h : level.Shallow b) (d : Draft) (hd : d.Within (b + 9)) :
    Yields (member? level d) (IfSome (Draft.Within (b + 9))) := by
  have child : ∀ {p : Parser Group}, Yields p (Group.Within (b + 1)) →
      Yields (do return some (d.addChild (← p))) (IfSome (Draft.Within (b + 9))) :=
    fun hp => hp.bind fun g hg => yields_pure (ifSome_some (hd.addChild (hg.mono (by omega))))
  have deeper : ∀ {p : Parser Group}, Yields p (Group.Within b) →
      Yields p (Group.Within (b + 1)) := fun hp => hp.mono fun _ hg => hg.mono (by omega)
  have element : ∀ {p : Parser Element}, Yields p (Element.Within (b + 9)) →
      Yields (do return some (d.addElements [← p])) (IfSome (Draft.Within (b + 9))) :=
    fun hp => hp.bind fun e he => yields_pure (ifSome_some
      (hd.addElements (List.forall_mem_singleton.mpr (he.mono (by omega)))))
  refine yields_lexeme.bind fun here _ => ?_
  split
  · exact yields_none
  · exact yields_none
  · exact yields_skip.bind fun _ _ => yields_pure (ifSome_some hd)
  · exact child (shallow_groupOrUnion h)
  · exact yields_skip.bind fun _ _ => child (deeper (h.group .optional))
  · exact yields_skip.bind fun _ _ => child (deeper (h.group .minus))
  · exact yields_skip.bind fun _ _ => child (deeper (shallow_namedGroup h _))
  · exact yields_skip.bind fun _ _ => child (deeper
      ((yields_tryKeyword _).bind fun _ _ => shallow_namedGroup h _))
  · exact element (shallow_filter h)
  · exact element ((shallow_binding h).mono fun _ he => he.mono (by omega))
  · exact yields_skip.bind fun _ _ => (yields_inlineData h.legal.namespaces).bind fun data _ =>
      yields_pure (ifSome_some (hd.addData data))
  · exact (shallow_triplesBlock h).bind fun _ hes => yields_pure (ifSome_some
      (hd.addElements fun e he => (hes e he).mono (by omega)))

theorem shallow_groupContent (h : level.Shallow b) :
    Yields (groupContent level) (Draft.Within (b + 9)) :=
  (yields_isAtKeyword _).bind fun _ _ => by
    split
    · exact yields_position.bind fun _ _ => (shallow_subSelect h).bind fun q hq =>
        yields_position.bind fun _ _ => yields_pure
          ⟨List.forall_mem_singleton.mpr (hq.mono (by omega)), List.forall_mem_nil _⟩
    · exact yields_repeatFrom (shallow_member? h) ⟨List.forall_mem_nil _, List.forall_mem_nil _⟩

theorem shallow_bracedGroup (h : level.Shallow b) (kind : GroupKind) :
    Yields (bracedGroup level kind) (Group.Within (b + 10)) :=
  yields_position.bind fun _ _ => (yields_mark _ _).bind fun _ _ =>
    (shallow_groupContent h).bind fun _ hd => (yields_mark _ _).bind fun _ _ =>
      yields_position.bind fun _ _ => yields_pure (Group.within hd.elements hd.children)

/-- A level adds ten to the depth of what the level inside it reads. -/
theorem shallow_ofAllowance {ns : Namespaces} (h : ns.Legal) (allowance : Nat) :
    (Level.ofAllowance ns allowance).Shallow (10 * allowance) := by
  induction allowance with
  | zero =>
      exact ⟨legal_ofAllowance h 0, yields_fail _, fun _ => yields_fail _, yields_fail _,
        yields_fail _⟩
  | succ allowance inner =>
      exact
        { legal := legal_ofAllowance h (allowance + 1)
          operand := (shallow_operandWithin inner).mono fun _ he => he.mono (by omega)
          group := fun kind => shallow_bracedGroup inner kind
          pathGroup := (shallow_bracketedPath inner).mono fun _ hp => hp.mono (by omega)
          blankNode := (shallow_bracketedBlankNode inner).mono
            fun _ hr e he => (hr e he).mono (by omega) }

end Groups

section Queries

structure Body.Within (b : Nat) (body : Body) : Prop where
  form : body.form.Within b
  root : body.root.Within b

theorem shallow_selectBody (h : level.Shallow b) :
    Yields (selectBody level) (Body.Within (b + 10)) :=
  (shallow_selectClause h).bind fun _ hf =>
    (yields_datasetClauses h.legal.namespaces).bind fun _ _ => (shallow_whereClause h).bind
      fun _ hr => yields_pure ⟨hf.mono (by omega), hr.mono (by omega)⟩

theorem shallow_askBody (h : level.Shallow b) : Yields (askBody level) (Body.Within (b + 10)) :=
  yields_skip.bind fun _ _ => (yields_datasetClauses h.legal.namespaces).bind fun _ _ =>
    (shallow_whereClause h).bind fun _ hr => yields_pure ⟨Depth.within_zero, hr.mono (by omega)⟩

theorem shallow_describeBody (h : level.Shallow b) :
    Yields (describeBody level) (Body.Within (b + 10)) := by
  have clause : Yields (describeClause level.namespaces) (Form.Within (b + 10)) := by
    refine yields_skip.bind fun _ _ => (yields_tryMark _).bind fun _ _ => ?_
    split
    · exact yields_pure Depth.within_zero
    · refine (yields_describeTarget? h.legal.namespaces).many.bind fun targets _ => ?_
      split
      · exact yields_expected _
      · exact yields_pure Depth.within_zero
  refine clause.bind fun _ hf => (yields_datasetClauses h.legal.namespaces).bind fun _ _ =>
    (yields_isAtKeyword _).bind fun _ _ => (yields_isAt _).bind fun _ _ => ?_
  split
  · exact (shallow_whereClause h).bind fun _ hr => yields_pure ⟨hf, hr.mono (by omega)⟩
  · exact yields_pure ⟨hf, Group.within (List.forall_mem_nil _) (List.forall_mem_nil _)⟩

theorem yields_templateOf_any (elements : List Element) :
    Yields (templateOf elements) fun _ => True := by
  induction elements with
  | nil => exact yields_pure trivial
  | cons e rest ih =>
      cases e with
      | triple t => exact ih.bind fun _ _ => yields_pure trivial
      | _ => exact yields_fail _

theorem shallow_constructBody (h : level.Shallow b) :
    Yields (constructBody level) (Body.Within (b + 10)) :=
  yields_skip.bind fun _ _ => (shallow_template h).bind fun elements _ =>
    (yields_datasetClauses h.legal.namespaces).bind fun _ _ => (shallow_whereClause h).bind
      fun _ hr => (yields_templateOf_any elements).bind fun _ _ =>
        yields_pure ⟨Depth.within_zero, hr.mono (by omega)⟩

/-- A pattern that is a template is a group of its statements. -/
theorem shallow_constructWhereBody (h : level.Shallow b) :
    Yields (constructWhereBody level) (Body.Within (b + 10)) :=
  (yields_datasetClauses h.legal.namespaces).bind fun _ _ => (yields_keyword _ _).bind fun _ _ =>
    yields_position.bind fun _ _ => (yields_mark _ _).bind fun _ _ =>
      (shallow_template h).bind fun elements hes => yields_position.bind fun _ _ =>
        (yields_templateOf_any elements).bind fun _ _ =>
          yields_pure ⟨Depth.within_zero,
            Group.within (fun e he => (hes e he).mono (by omega)) (List.forall_mem_nil _)⟩

theorem shallow_body (h : level.Shallow b) : Yields (body level) (Body.Within (b + 10)) :=
  yields_lexeme.bind fun _ _ => by
    split
    · exact shallow_selectBody h
    · refine yields_skip.bind fun _ _ => (yields_isAt _).bind fun _ _ => ?_
      split
      · exact shallow_constructBody h
      · exact shallow_constructWhereBody h
    · exact shallow_describeBody h
    · exact shallow_askBody h
    · exact yields_expected _

/-- The levels that are allowed and the one of the query itself. -/
theorem shallow_queryUnit :
    Yields queryUnit fun unit => unit.query.Within (10 * (maxNesting + 1)) :=
  yields_prologue.bind fun _ hns => by
    have level := shallow_ofAllowance hns maxNesting
    exact (shallow_body level).bind fun _ hb => (shallow_modifiers level).bind fun _ hm =>
      (yields_trailingValues hns).bind fun _ _ => yields_endOfText.bind fun _ _ =>
        yields_position.bind fun _ _ => yields_pure (within_assemble hb.form hb.root
          ⟨fun c hc => (hm.groupBy c hc).mono (by omega),
            fun e he => (hm.having e he).mono (by omega),
            fun c hc => (hm.orderBy c hc).mono (by omega)⟩)

end Queries

end SparqlMetrics.Grammar
