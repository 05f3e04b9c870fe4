import SparqlMetrics.Proofs.Reading.Operands

/-!
# Reading operators

Prefix operators, chains of operands, comparisons and membership tests are read back from their
written form when their operands are. A comparison with another one on its left is written without
brackets there, and what is read stops in front of its sign.
-/
namespace SparqlMetrics

open Lexeme

namespace Grammar

open SparqlMetrics.Parser TwoRuns Cursor

section Prefix
variable {ns : Namespaces} {indent : Nat} {operand : Expression} {span : Span} {t : Text}
  {m : Symbol}

theorem opens_prefixOperator (h : m ∈ prefixOperators) (avoids : Avoids Byte.equals t) :
    Opens (m.text ++ t) (.symbol m) t := by
  cases m with
  | bang => exact opens_bang avoids
  | plus => exact opens_byte (b := Byte.plus) (s := .plus) (by decide) t
  | minus => exact opens_byte (b := Byte.hyphen) (s := .minus) (by decide) t
  | _ => exact absurd h (by decide)

theorem avoids_equals {s : Text} (h : OpensExpression s) (rest : Text) :
    Avoids Byte.equals (s ++ rest) := by
  obtain ⟨b, more, rfl, other⟩ := h.head
  exact stopsAt_cons (beq_eq_false_iff_ne.mpr other)

theorem isPrefixOperator_of_mem (h : m ∈ prefixOperators) :
    isPrefixOperator (.symbol m) = true ∧ startsExpression (.symbol m) = true ∧
      ∃ b, m.text = [b] ∧ b ≠ Byte.equals := by
  cases m with
  | bang => exact ⟨rfl, rfl, Byte.bang, by decide, by decide⟩
  | plus => exact ⟨rfl, rfl, Byte.plus, by decide, by decide⟩
  | minus => exact ⟨rfl, rfl, Byte.hyphen, by decide, by decide⟩
  | _ => exact absurd h (by decide)

theorem tier_of_breaksUnary (h : operand.breaksUnary = false) : 6 ≤ operand.tier := by
  cases operand with
  | binary op args span => cases h
  | member negated args span => cases h
  | _ => exact Nat.le_refl 6

theorem readsExpression_unary (hm : m ∈ prefixOperators) (h : ReadsExpression ns indent operand) :
    ReadsExpression ns indent (.unary m.text [operand] span) := by
  have written : ((Expression.unary m.text [operand] span).write ns indent).text =
      m.text ++ Path.bracketedIf operand.breaksUnary (operand.write ns indent).text := by
    simp [Expression.write]
  have opening := h.opens_operand operand.breaksUnary
  obtain ⟨isPrefix, starts, b, spelled, other⟩ := isPrefixOperator_of_mem hm
  have opens := fun rest => opens_prefixOperator hm (avoids_equals opening rest)
  refine ⟨?_, ?_, fun alone => by cases alone⟩
  · rw [written]
    refine ⟨⟨b, _, by rw [spelled]; rfl, other⟩, fun rest _ => ?_⟩
    rw [List.append_assoc, Text.first_of_opens (opens rest)]
    exact starts
  · rw [written]
    obtain ⟨k, tight, tiers⟩ := h.operand (Nat.le_refl 6) tier_of_breaksUnary
    refine readsTier_of_operand (fun n rest ends => ?_) fun fits => ?_
    · have inside : Fares (Level.ofAllowance ns n).operand _ _ _ rest :=
        tiers.reads (by decide) tight n _ rest ends (Nat.le_refl _)
      refine Reads.position (Reads.lexeme (l := .symbol m) ?_ ?_)
      · rw [List.append_assoc]
        exact Text.first_of_opens (opens rest)
      · rw [if_pos isPrefix]
        refine (Fares.then (fares_skip (opens rest)) (inside.bind_pure ?_)).congr
          Expression.fits_unary.symm
        rw [bind_eq_of_ok (position_before rest)]
        rfl
    · exact Expression.not_fits_zero (Nat.le_add_left 1 _) fits

end Prefix

section Chains
variable {ns : Namespaces} {indent : Nat} {left right : Expression} {span : Span} {rest : Text}
  {m : Symbol}

theorem tightness_operator (h : m ∈ binaryOperators) :
    tightness (.symbol m) = precedence m.text ∧ 1 ≤ precedence m.text ∧ precedence m.text ≤ 5 := by
  cases m <;> first | decide | exact absurd h (by decide)

theorem isOperatorOf_precedence (h : m ∈ binaryOperators)
    (isChain : isChainTier (precedence m.text) = true) :
    isOperatorOf (precedence m.text) (.symbol m) = true := by
  cases m <;> first | decide | exact absurd h (by decide) | exact absurd isChain (by decide)

theorem isComparison_precedence (h : m ∈ binaryOperators)
    (relational : precedence m.text = comparisonPrecedence) : isComparison (.symbol m) = true := by
  cases m <;> first | decide | exact absurd h (by decide) | exact absurd relational (by decide)

/-- A text behind the left operand of an operator. -/
theorem endsExpression_operator (h : m ∈ binaryOperators) (s : Text) {j : Nat}
    (loose : precedence m.text < j) :
    EndsExpression j (Byte.space :: m.text ++ Byte.space :: s) := by
  refine endsExpression_of_opens (opens_spaced _ s) (stopsAt_cons (by decide)) ?_ ?_ ?_
  · cases m <;> first | rfl | exact absurd h (by decide)
  · rintro ⟨⟩
    exact absurd h (by decide)
  · rw [(tightness_operator h).1]
    exact loose

theorem operator_append (m : Symbol) (s rest : Text) :
    Byte.space :: m.text ++ Byte.space :: s ++ rest =
      Byte.space :: m.text ++ Byte.space :: (s ++ rest) := by
  simp

theorem tokens_operator (m : Symbol) (s : Text) :
    Text.tokens (Byte.space :: m.text ++ Byte.space :: s) = s.tokens + 1 := by
  rw [Text.tokens_of_opens (opens_spaced _ s), Text.tokens_space _ (by decide)]

/-- An operand without brackets binds at least as tightly as its operator, and more tightly on the
right. -/
theorem tier_of_breaksBinary {parent : Nat} {onRight : Bool} {e : Expression} (high : parent ≤ 5)
    (h : e.breaksBinary parent onRight = false) : parent + (if onRight then 1 else 0) ≤ e.tier := by
  cases e with
  | binary op args span =>
      simp only [Expression.breaksBinary, Bool.or_eq_false_iff, decide_eq_false_iff_not, Nat.not_lt,
        Bool.and_eq_false_iff, beq_eq_false_iff_ne] at h
      have tier : (Expression.binary op args span).tier = precedence op := rfl
      cases onRight with
      | false => exact h.1
      | true =>
          have other : precedence op ≠ parent := by simpa using h.2
          rw [tier, if_pos rfl]
          omega
  | member negated args span => cases h
  | _ =>
      show _ ≤ 6
      split <;> omega

theorem write_binary :
    ((Expression.binary m.text [left, right] span).write ns indent).text =
      Path.bracketedIf (left.breaksBinary (precedence m.text) false) (left.write ns indent).text ++
        (Byte.space :: m.text ++ Byte.space ::
          Path.bracketedIf (right.breaksBinary (precedence m.text) true)
            (right.write ns indent).text) := by
  simp [Expression.write]

theorem span_rewrite (e : Expression) : (e.rewrite reread).span.start = 0 := by
  cases e with
  | «exists» negated pattern span => cases pattern <;> rfl
  | _ => rfl

theorem opens_binary (h : ReadsExpression ns indent left) :
    OpensExpression ((Expression.binary m.text [left, right] span).write ns indent).text := by
  have opening := h.opens_operand (left.breaksBinary (precedence m.text) false)
  rw [write_binary]
  refine ⟨?_, fun rest _ => ?_⟩
  · obtain ⟨b, more, same, other⟩ := opening.head
    rw [same]
    exact ⟨b, _, rfl, other⟩
  · rw [List.append_assoc]
    exact opening.first _ (stopsAt_cons (by decide))

/-- Operands joined by an operator that chains. -/
theorem readsExpression_chain (hm : m ∈ binaryOperators)
    (isChain : isChainTier (precedence m.text) = true) (hleft : ReadsExpression ns indent left)
    (hright : ReadsExpression ns indent right) :
    ReadsExpression ns indent (.binary m.text [left, right] span) := by
  obtain ⟨_, low, high⟩ := tightness_operator hm
  have notRelational : precedence m.text ≠ comparisonPrecedence := by
    intro same
    rw [same] at isChain
    cases isChain
  refine ⟨opens_binary hleft, ⟨⟨low, Nat.le_succ_of_le high⟩, ?_, fun _ => ?_, ?_⟩, nofun⟩
  · intro same
    have tier : precedence m.text = 6 := same
    omega
  · intro n bound rest ends enough
    obtain ⟨i, leftTight, leftTiers⟩ := hleft.operand (Nat.le_succ_of_le high)
      (b := left.breaksBinary (precedence m.text) false) (tier_of_breaksBinary high)
    obtain ⟨k, rightTight, rightTiers⟩ := hright.operand (Nat.succ_le_succ high)
      (b := right.breaksBinary (precedence m.text) true) (tier_of_breaksBinary high)
    rw [write_binary] at enough ⊢
    rw [List.append_assoc] at enough
    have gathers := leftTiers.gathers isChain leftTight n bound _
      (operator_append m _ rest ▸ endsExpression_operator hm _ (Nat.lt_succ_self _)) enough
    have fewer := gathers.fewer (hleft.opens_operand _).ne_nil
    have count := tokens_operator m (Path.bracketedIf (right.breaksBinary (precedence m.text) true)
      (right.write ns indent).text ++ rest)
    rw [← operator_append] at count
    have read := rightTiers.reads (Nat.le_add_left 1 _) rightTight n bound rest ends (by omega)
    rw [otherwise_succ isChain] at read
    have step := reads_extendBy (isOperatorOf_precedence hm isChain) (span_rewrite left)
      (hright.opens_operand _).ne_nil read
    refine (gathers.extend (extends_tier isChain _) step (List.cons_ne_nil _ _)).congr ?_
    exact (and_iff_right fun same => absurd same notRelational).symm.trans
      Expression.fits_binary.symm
  · intro same
    exact absurd same notRelational

/-- The left side of a comparison or a membership test, unless it is a comparison. -/
theorem tier_of_left {e : Expression} (unchained : e.isComparison = false)
    (h : e.breaksBinary comparisonPrecedence false = false) : 4 ≤ e.tier := by
  have least : comparisonPrecedence + 0 ≤ e.tier := tier_of_breaksBinary (by decide) h
  cases e with
  | binary op args span =>
      have other : precedence op ≠ comparisonPrecedence := by
        simpa [Expression.isComparison] using unchained
      have bound : comparisonPrecedence ≤ precedence op := least
      exact Nat.lt_of_le_of_ne bound (Ne.symm other)
  | member negated args span => cases h
  | _ => show 4 ≤ 6; decide

/-- A comparison on the left stands without brackets. -/
theorem left_of_isComparison {e : Expression} (h : e.isComparison = true) :
    e.breaksBinary comparisonPrecedence false = false ∧ e.tier = 3 := by
  cases e with
  | binary op args span =>
      have same : precedence op = comparisonPrecedence := by
        simpa [Expression.isComparison] using h
      refine ⟨?_, same⟩
      rw [Expression.breaksBinary, same]
      rfl
  | _ => cases h

/-- What the reader of comparisons does behind a sum. -/
def behindSum (level : Level) (expression : Parser Expression) (left : Expression) :
    Parser Expression := do
  match ← extendBy isComparison (sum level) left with
  | some comparison => pure comparison
  | none =>
    match ← membership? with
    | some negated => memberList expression negated left
    | none => pure left

/-- A left side and a text that compares it. What is read stops between a comparison and a further
one. -/
theorem strays_compared {n bound : Nat} {t : Text} {Q : Prop} {y : Expression}
    (hleft : ReadsExpression ns indent left) (ends : EndsExpression 4 (t ++ rest))
    (relation : isRelational (t ++ rest).first = true)
    (enough : (Path.bracketedIf (left.breaksBinary comparisonPrecedence false)
      (left.write ns indent).text ++ (t ++ rest)).tokens ≤ bound)
    (step : (t ++ rest).tokens ≤ bound → Fares (behindSum (Level.ofAllowance ns n)
      (expressionUpTo (Level.ofAllowance ns n) bound) (left.rewrite reread)) t Q y rest) :
    Strays (tierReader (Level.ofAllowance ns n) bound 3)
      (Path.bracketedIf (left.breaksBinary comparisonPrecedence false)
        (left.write ns indent).text ++ t)
      (left.isComparison = false ∧
        left.FitsIn (left.breaksBinary comparisonPrecedence false) n ∧ Q) y rest := by
  cases chained : left.isComparison with
  | true =>
      obtain ⟨noBrackets, tier⟩ := left_of_isComparison chained
      rw [noBrackets] at enough ⊢
      have read := hleft.tiers.relation tier n bound _ ends enough
      have behind := step (Nat.le_trans read.le enough)
      refine ⟨fun fits => (by cases fits.1), fun _ => ?_, fewer_append read.fewer behind.fewer⟩
      rw [List.append_assoc]
      by_cases fits : left.Fits n
      · exact .inr ⟨_, _, read.result fits, relation⟩
      · exact read.failure fits
  | false =>
      obtain ⟨k, tight, tiers⟩ := hleft.operand (j := 4) (by decide)
        (b := left.breaksBinary comparisonPrecedence false) (tier_of_left chained)
      have read : Fares (sum (Level.ofAllowance ns n)) _ _ _ (t ++ rest) :=
        tiers.reads (by decide) tight n bound _ ends enough
      have whole : Fares (sum (Level.ofAllowance ns n) >>= behindSum (Level.ofAllowance ns n)
        (expressionUpTo (Level.ofAllowance ns n) bound)) _ _ _ rest :=
        Fares.bind read (step (Nat.le_trans read.le enough))
      exact Fares.strays (whole.congr (and_iff_right rfl).symm)

/-- A comparison sign and the operand behind it. -/
theorem fares_behindSum {level : Level} (expression : Parser Expression) {s : Text} {g : Prop}
    {left x : Expression} (sign : isComparison (.symbol m) = true) (bareLeft : left.span.start = 0)
    (nonempty : s ≠ []) (read : Fares (sum level) s g x rest) :
    Fares (behindSum level expression left) (Byte.space :: m.text ++ Byte.space :: s) g
      (.binary m.text [left, x] {}) rest :=
  Fares.bind_pure (reads_extendBy (j := 4) sign bareLeft nonempty read) rfl

/-- A comparison of two operands. -/
theorem readsExpression_comparison (hm : m ∈ binaryOperators)
    (relational : precedence m.text = comparisonPrecedence) (hleft : ReadsExpression ns indent left)
    (hright : ReadsExpression ns indent right) :
    ReadsExpression ns indent (.binary m.text [left, right] span) := by
  have tier : (Expression.binary m.text [left, right] span).tier = 3 := relational
  refine ⟨opens_binary hleft, ?_, nofun⟩
  rw [tier]
  refine ⟨by decide, nofun, nofun, fun _ n bound rest ends enough => ?_⟩
  rw [write_binary, relational] at enough ⊢
  rw [List.append_assoc] at enough
  obtain ⟨k, rightTight, rightTiers⟩ := hright.operand (j := 4) (by decide)
    (b := right.breaksBinary comparisonPrecedence true) (tier_of_breaksBinary (by decide))
  have opens := opens_spaced m (Path.bracketedIf (right.breaksBinary comparisonPrecedence true)
    (right.write ns indent).text ++ rest)
  have endsLeft := endsExpression_operator hm
    (Path.bracketedIf (right.breaksBinary comparisonPrecedence true)
      (right.write ns indent).text ++ rest) (j := 4) (by rw [relational]; decide)
  rw [← operator_append] at opens endsLeft
  have sign := isComparison_precedence hm relational
  have read := rightTiers.reads (by decide) rightTight n _ rest ends (Nat.le_refl _)
  have behind := fares_behindSum (expressionUpTo (Level.ofAllowance ns n) bound) sign
    (span_rewrite left) (hright.opens_operand _).ne_nil read
  have whole := strays_compared hleft endsLeft
    (by rw [Text.first_of_opens opens]; simp [isRelational, sign]) enough fun _ => behind
  refine whole.congr (Iff.trans ?_ Expression.fits_binary.symm)
  rw [relational]
  exact and_congr_left' ⟨fun h _ => h, fun h => h rfl⟩

end Chains

end Grammar

end SparqlMetrics
