import SparqlMetrics.Proofs.Reading.Triples

/-!
# Reading at the tiers of expressions

Expressions have six tiers: disjunctions, conjunctions, comparisons and membership tests, sums,
products and operands. A text that is read by one of them is read by every looser one, in front of a
text that does not go on with an operator of that tier or a tighter one. From the sums inwards a text
is read or fails; further out it may also stop at a comparison.
-/
namespace SparqlMetrics

open Lexeme

namespace Grammar

open SparqlMetrics.Parser TwoRuns Cursor

/-- The tier of the operator that a lexeme is behind an expression; 0 for every other lexeme. -/
def tightness (l : Lexeme) : Nat :=
  if l = .symbol .orOr then 1
  else if l = .symbol .andAnd then 2
  else if isRelational l then 3
  else if isSumSign l then 4
  else if isProductSign l then 5
  else 0

/-- A text that may follow an expression at a tier: it goes on with no operator of that tier or a
tighter one. -/
structure EndsExpression (tier : Nat) (rest : Text) : Prop extends EndsTerm rest where
  noCall : rest.first ≠ .symbol .lparen
  loose : tightness rest.first < tier

theorem EndsExpression.weaken {j k : Nat} {rest : Text} (h : EndsExpression j rest) (le : j ≤ k) :
    EndsExpression k rest :=
  ⟨h.toEndsTerm, h.noCall, Nat.lt_of_lt_of_le h.loose le⟩

/-- The reader of a tier; membership lists nest at most a given number of times. -/
def tierReader (level : Level) (bound : Nat) : Nat → Parser Expression
  | 1 => expressionUpTo level (bound + 1)
  | 2 => chain (· == .symbol .andAnd) (relational level (expressionUpTo level bound))
  | 3 => relational level (expressionUpTo level bound)
  | 4 => sum level
  | 5 => chain isProductSign level.operand
  | _ => level.operand

/-- Whether the expressions of a tier are operands joined to the left. -/
def isChainTier (tier : Nat) : Bool := tier == 1 || tier == 2 || tier == 4 || tier == 5

/-- The operators of a tier that is a chain. -/
def isOperatorOf : Nat → Lexeme → Bool
  | 1 => (· == .symbol .orOr)
  | 2 => (· == .symbol .andAnd)
  | 4 => isSumSign
  | _ => isProductSign

theorem tier_cases {j : Nat} (h : isChainTier j = true) : j = 1 ∨ j = 2 ∨ j = 4 ∨ j = 5 := by
  simpa [isChainTier, or_assoc] using h

theorem tierReader_chain (level : Level) (bound : Nat) {j : Nat} (h : isChainTier j = true) :
    tierReader level bound j = chain (isOperatorOf j) (tierReader level bound (j + 1)) := by
  rcases tier_cases h with rfl | rfl | rfl | rfl <;> rfl

theorem tightness_of_isOperatorOf {j : Nat} (h : isChainTier j = true) {l : Lexeme}
    (operator : isOperatorOf j l = true) : tightness l = j := by
  rcases tier_cases h with rfl | rfl | rfl | rfl
  · cases eq_of_beq operator
    rfl
  · cases eq_of_beq operator
    rfl
  · simp only [isOperatorOf, isSumSign, Bool.or_eq_true, beq_iff_eq] at operator
    rcases operator with rfl | rfl <;> rfl
  · simp only [isOperatorOf, isProductSign, Bool.or_eq_true, beq_iff_eq] at operator
    rcases operator with rfl | rfl <;> rfl

theorem tightness_of_isRelational {l : Lexeme} (h : isRelational l = true) : tightness l = 3 := by
  have noOr : l ≠ .symbol .orOr := by rintro rfl; cases h
  have noAnd : l ≠ .symbol .andAnd := by rintro rfl; cases h
  rw [tightness, if_neg noOr, if_neg noAnd, if_pos h]

section Outcome
variable {α β : Type} {j : Nat}

/-- How reading at a tier ends that does not read its text. -/
def otherwise (tier : Nat) (r : Except ParseError (α × Cursor)) : Prop :=
  if 4 ≤ tier then Fails r else Derails r

theorem otherwise_error (j : Nat) (e : ParseError) :
    otherwise j (.error e : Except ParseError (α × Cursor)) := by
  unfold otherwise
  split
  · exact fails_error e
  · exact derails_error e

/-- The operands of a chain end as the chain does. -/
theorem otherwise_succ (h : isChainTier j = true) :
    (otherwise (j + 1) : Except ParseError (α × Cursor) → Prop) = otherwise j := by
  rcases tier_cases h with rfl | rfl | rfl | rfl <;> rfl

theorem reads_otherwise {p : Parser α} {s rest : Text} {g : Prop} {x : α}
    (h : Fares p s g x rest) : Reads (otherwise j) p s g x rest := by
  refine ⟨h.result, fun hg => ?_, h.fewer⟩
  obtain ⟨e, failed⟩ := h.failure hg
  rw [failed]
  exact otherwise_error j e

/-- Behind an action at a tier, one that takes no token. -/
theorem Reads.steady {p : Parser α} {f : α → Parser β} {s rest : Text} {g : Prop} {x : α} {y : β}
    (h : Reads (otherwise j) p s g x rest) (stays : ∀ x c, ∃ y, f x c = .ok (y, c))
    (hf : f x (before rest) = .ok (y, before rest)) :
    Reads (otherwise j) (p >>= f) s g y rest := by
  refine ⟨fun hg => ?_, fun hg => ?_, h.fewer⟩
  · rw [bind_eq_of_ok (h.result hg), hf]
  · have failed := h.failure hg
    unfold otherwise at failed ⊢
    split at failed
    · rw [if_pos ‹_›]
      obtain ⟨e, failed⟩ := failed
      rw [bind_eq_of_error failed]
      exact fails_error e
    · rw [if_neg ‹_›]
      rcases failed with ⟨e, failed⟩ | ⟨x', c, stopped, relation⟩
      · rw [bind_eq_of_error failed]
        exact derails_error e
      · obtain ⟨y', same⟩ := stays x' c
        rw [bind_eq_of_ok stopped, same]
        exact .inr ⟨y', c, rfl, relation⟩

end Outcome

section Extending
variable {isOperator : Lexeme → Bool} {operand : Parser Expression} {left x : Expression}
  {s rest : Text} {g : Prop} {j : Nat}

theorem extendBy_idle {c : Cursor} (h : isOperator c.token.lexeme = false) :
    extendBy isOperator operand left c = .ok (none, c) := by
  have here : lexeme c = .ok (c.token.lexeme, c) := rfl
  rw [extendBy, bind_eq_of_ok here, h]
  rfl

theorem extends_tier (h : isChainTier j = true) (operand : Parser Expression) :
    Extends (extendBy (isOperatorOf j) operand) (otherwise j) (otherwise j) := by
  have idle : ∀ left c, AtRelation c →
      extendBy (isOperatorOf j) operand left c = .ok (none, c) := by
    intro left c relation
    refine extendBy_idle (Bool.eq_false_iff.mpr fun operator => ?_)
    have tight := tightness_of_isOperatorOf h operator
    rw [tightness_of_isRelational relation] at tight
    rcases tier_cases h with rfl | rfl | rfl | rfl <;> cases tight
  rcases tier_cases h with rfl | rfl | rfl | rfl
  · exact extends_derails idle
  · exact extends_derails idle
  · exact extends_fails _
  · exact extends_fails _

/-- A mark between spaces. -/
theorem opens_spaced (m : Symbol) (rest : Text) :
    Opens (Byte.space :: m.text ++ Byte.space :: rest) (.symbol m) (Byte.space :: rest) :=
  (opens_symbol m rest).space (by decide)

/-- An operator and the operand behind it. -/
theorem reads_extendBy {m : Symbol} (operator : isOperator (.symbol m) = true)
    (bareLeft : left.span.start = 0) (nonempty : s ≠ [])
    (read : Reads (otherwise j) operand s g x rest) :
    Reads (otherwise j) (extendBy isOperator operand left)
      (Byte.space :: m.text ++ Byte.space :: s) g (some (.binary m.text [left, x] {})) rest := by
  have opens := opens_spaced m (s ++ rest)
  refine Reads.lexeme (l := .symbol m) ?_ ?_
  · rw [List.append_assoc]
    exact Text.first_of_opens opens
  · rw [if_pos operator]
    refine Reads.behind (s := Byte.space :: m.text) (otherwise_error j) (fares_skip opens) ?_
    have finish : ∀ x c, (some <$> binaryNode (Lexeme.symbol m).text left x) c =
        .ok (some (.binary m.text [left, x] ⟨left.span.start, c.token.start⟩), c) := fun _ _ => rfl
    refine Reads.steady (read.space (by decide) nonempty) (fun x c => ⟨_, finish x c⟩) ?_
    rw [finish, bareLeft, token_before]

end Extending

section Lowering
variable {ns : Namespaces} {s : Text} {g : Nat → Prop} {x : Expression} {j k : Nat}

/-- Whether a text is read by the reader of a tier, wherever it stands. -/
def ReadsAt (ns : Namespaces) (j : Nat) (s : Text) (g : Nat → Prop) (x : Expression) : Prop :=
  ∀ n bound rest, EndsExpression j rest → (s ++ rest).tokens ≤ bound →
    Reads (otherwise j) (tierReader (Level.ofAllowance ns n) bound j) s (g n) x rest

/-- Whether a text is read by the reader of a chain, which then goes on. -/
def GathersAt (ns : Namespaces) (j : Nat) (s : Text) (g : Nat → Prop) (x : Expression) : Prop :=
  ∀ n bound rest, EndsExpression (j + 1) rest → (s ++ rest).tokens ≤ bound →
    Gathers (otherwise j) (tierReader (Level.ofAllowance ns n) bound j)
      (extendBy (isOperatorOf j) (tierReader (Level.ofAllowance ns n) bound (j + 1))) s (g n) x rest

/-- Whether a text is read as a comparison or a membership test, also in front of a further one. -/
def RelatesAt (ns : Namespaces) (s : Text) (g : Nat → Prop) (x : Expression) : Prop :=
  ∀ n bound rest, EndsExpression 4 rest → (s ++ rest).tokens ≤ bound →
    Strays (tierReader (Level.ofAllowance ns n) bound 3) s (g n) x rest

/-- How a text is read that stands for an expression of a tier. -/
structure ReadsTier (ns : Namespaces) (k : Nat) (s : Text) (g : Nat → Prop) (x : Expression) :
    Prop where
  range : 1 ≤ k ∧ k ≤ 6
  operand : k = 6 → ReadsAt ns 6 s g x
  chain : isChainTier k = true → GathersAt ns k s g x
  relation : k = 3 → RelatesAt ns s g x

theorem gathersAt_of_readsAt (h : isChainTier j = true) (read : ReadsAt ns (j + 1) s g x) :
    GathersAt ns j s g x := by
  intro n bound rest ends enough
  have first := read n bound rest ends enough
  rw [otherwise_succ h] at first
  rw [tierReader_chain _ _ h]
  exact first.gathers (extends_tier h _)

theorem readsAt_of_gathersAt (h : isChainTier j = true) (gathers : GathersAt ns j s g x) :
    ReadsAt ns j s g x := by
  intro n bound rest ends enough
  refine (gathers n bound rest (ends.weaken (Nat.le_succ j)) enough).stop (extendBy_idle ?_)
  rw [Bool.eq_false_iff]
  intro operator
  have loose := ends.loose
  rw [Text.first, tightness_of_isOperatorOf h operator] at loose
  exact Nat.lt_irrefl j loose

theorem membership?_idle {c : Cursor} (h : isRelational c.token.lexeme = false) :
    membership? c = .ok (none, c) := by
  simp only [isRelational, Bool.or_eq_false_iff] at h
  have noIn : isAtKeyword .IN c = .ok (false, c) := by rw [isAtKeyword, h.1.2]
  have noNot : isAtKeyword .NOT c = .ok (false, c) := by rw [isAtKeyword, h.2]
  have following : followingLexeme c = .ok (c.following.lexeme, c) := rfl
  rw [membership?, bind_eq_of_ok noIn]
  simp only [Bool.false_eq_true, if_false]
  rw [bind_eq_of_ok noNot]
  rfl

/-- A sum is a comparison without an operator. -/
theorem readsAt_relational (read : ReadsAt ns 4 s g x) : ReadsAt ns 3 s g x := by
  intro n bound rest ends enough
  have unrelated : isRelational rest.first = false := by
    rw [Bool.eq_false_iff]
    intro relation
    have loose := ends.loose
    rw [tightness_of_isRelational relation] at loose
    exact Nat.lt_irrefl 3 loose
  have noComparison : isComparison rest.first = false := by
    simp only [isRelational, Bool.or_eq_false_iff] at unrelated
    exact unrelated.1.1
  have readSum : Fares (sum (Level.ofAllowance ns n)) s (g n) x rest :=
    read n bound rest (ends.weaken (by decide)) enough
  refine (readSum.bind_pure ?_).strays
  rw [bind_eq_of_ok (extendBy_idle noComparison)]
  simp only []
  rw [bind_eq_of_ok (membership?_idle unrelated)]
  rfl

theorem readsAt_lower (low : 1 ≤ j) (high : j ≤ 5) (read : ReadsAt ns (j + 1) s g x) :
    ReadsAt ns j s g x := by
  by_cases relational : j = 3
  · subst relational
    exact readsAt_relational read
  · have h : isChainTier j = true := by
      simp only [isChainTier, Bool.or_eq_true, beq_iff_eq]
      omega
    exact readsAt_of_gathersAt h (gathersAt_of_readsAt h read)

namespace ReadsTier

/-- What is read at a tier is read at every looser one. -/
theorem reads (h : ReadsTier ns k s g x) (low : 1 ≤ j) (le : j ≤ k) : ReadsAt ns j s g x := by
  obtain ⟨d, rfl⟩ : ∃ d, k = j + d := ⟨k - j, by omega⟩
  have own : ReadsAt ns (j + d) s g x := by
    have range := h.range
    by_cases relational : j + d = 3
    · rw [relational] at h ⊢
      exact fun n bound rest ends => h.relation rfl n bound rest (ends.weaken (by decide))
    · by_cases operand : j + d = 6
      · rw [operand] at h ⊢
        exact h.operand rfl
      · have isChain : isChainTier (j + d) = true := by
          simp only [isChainTier, Bool.or_eq_true, beq_iff_eq]
          omega
        exact readsAt_of_gathersAt isChain (h.chain isChain)
  have bounded := h.range.2
  clear h le
  induction d with
  | zero => exact own
  | succ d ih => exact ih (readsAt_lower (by omega) (by omega) own) (by omega)

theorem gathers (h : ReadsTier ns k s g x) (isChain : isChainTier j = true) (le : j ≤ k) :
    GathersAt ns j s g x := by
  rcases Nat.eq_or_lt_of_le le with rfl | less
  · exact h.chain isChain
  · exact gathersAt_of_readsAt isChain (h.reads (by omega) less)

end ReadsTier

/-- The reader of whole expressions. -/
theorem ReadsTier.expression (h : ReadsTier ns k s g x) (n : Nat) {rest : Text}
    (ends : EndsExpression 1 rest) :
    Strays (Grammar.expression (Level.ofAllowance ns n)) s (g n) x rest := by
  have read := h.reads (Nat.le_refl 1) h.range.1 n _ rest ends (Nat.le_refl _)
  have same : Grammar.expression (Level.ofAllowance ns n) (before (s ++ rest)) =
      tierReader (Level.ofAllowance ns n) (s ++ rest).tokens 1 (before (s ++ rest)) := rfl
  exact ⟨fun hg => same ▸ read.result hg, fun hg => same ▸ read.failure hg, read.fewer⟩

end Lowering

end Grammar

end SparqlMetrics
