import SparqlMetrics.Proofs.Reading.Tiers

/-!
# Reading operands

Operands are terms, calls, aggregates, tests for a pattern and whole expressions between brackets,
and each of them behind prefix operators. An operand is read one level further in than the expression
it belongs to, so it is read where a level is left for it.
-/
namespace SparqlMetrics

open Lexeme

def Expression.tier : Expression → Nat
  | .binary op _ _ => precedence op
  | .member _ _ _ => comparisonPrecedence
  | _ => 6

@[simp] theorem Passage.text_bracketedIf (needed : Bool) (p : Passage) :
    (Passage.bracketedIf needed p).text = Path.bracketedIf needed p.text := by
  cases needed <;> simp [Passage.bracketedIf, Path.bracketedIf]

@[simp] theorem Passage.text_line (indent : Nat) (p : Passage) :
    (Passage.line indent p).text = SparqlMetrics.line indent p.text := by
  simp [Passage.line, SparqlMetrics.line]

namespace Grammar

open SparqlMetrics.Parser TwoRuns Cursor

def startsExpression : Lexeme → Bool
  | .symbol m => m == .lparen || m == .bang || m == .plus || m == .minus
  | .keyword k _ => k == .TRUE || k == .FALSE || k == .NOT || k == .EXISTS
  | .iri _ => true
  | .prefixedName _ _ => true
  | .variableName _ => true
  | .string _ _ => true
  | .number _ _ => true
  | .identifier _ => true
  | _ => false

/-- A text that opens with an expression. -/
structure OpensExpression (s : Text) : Prop where
  head : ∃ b more, s = b :: more ∧ b ≠ Byte.equals
  first : ∀ rest, Parts rest → startsExpression (s ++ rest).first = true

theorem OpensExpression.ne_nil {s : Text} (h : OpensExpression s) : s ≠ [] := by
  obtain ⟨b, more, rfl, _⟩ := h.head
  exact List.cons_ne_nil _ _

/-- Whether a constraint without brackets opens at a lexeme with a given one behind it. -/
def startsAlone (here following : Lexeme) : Bool :=
  here != .symbol .lparen && startsConstraint here following

/-- How an expression is read that needs no brackets as a constraint. -/
structure ReadsAlone (ns : Namespaces) (indent : Nat) (e : Expression) (n : Nat) (rest : Text) :
    Prop where
  starts : startsAlone ((e.write ns indent).text ++ rest).first
    ((e.write ns indent).text ++ rest).second = true
  primary : Fares (primaryExpression (Level.ofAllowance ns n)) (e.write ns indent).text
    (e.Fits (n + 1)) (e.rewrite reread) rest

/-- How an expression is read from its written form. One that stands alone is a constraint without
brackets, whatever follows it. -/
structure ReadsExpression (ns : Namespaces) (indent : Nat) (e : Expression) : Prop where
  opening : OpensExpression (e.write ns indent).text
  tiers : ReadsTier ns e.tier (e.write ns indent).text (fun n => e.Fits n) (e.rewrite reread)
  alone : e.standsAlone false = true → ∀ n rest, ReadsAlone ns indent e n rest

section Closing
variable {α : Type} {rest : Text}

theorem opens_rparen (rest : Text) : Opens (Byte.rparen :: rest) (.symbol .rparen) rest :=
  opens_byte (by decide) rest

theorem opens_lparen (rest : Text) : Opens (Byte.lparen :: rest) (.symbol .lparen) rest :=
  opens_byte (by decide) rest

theorem endsExpression_of_opens {s behind : Text} {l : Lexeme} {j : Nat} (opens : Opens s l behind)
    (parts : Parts s) (noTag : l.continuesString = false) (noCall : l ≠ .symbol .lparen)
    (loose : tightness l < j) : EndsExpression j s where
  parts := parts
  noTag := by rw [Text.first_of_opens opens, noTag]
  noCall := by rwa [Text.first_of_opens opens]
  loose := by rwa [Text.first_of_opens opens]

theorem endsExpression_rparen (rest : Text) : EndsExpression 1 (Byte.rparen :: rest) :=
  endsExpression_of_opens (opens_rparen rest) (stopsAt_cons (by decide)) rfl nofun (by decide)

/-- No mark but a comparison sign is passed over where a comparison goes on. -/
theorem mark_fails {m : Symbol} {c : Cursor} (e : Expectation) (h : AtRelation c)
    (other : isRelational (.symbol m) = false) : Fails (mark m e c) := by
  have here : lexeme c = .ok (c.token.lexeme, c) := rfl
  have distinct : (c.token.lexeme == Lexeme.symbol m) = false := by
    rw [beq_eq_false_iff_ne]
    intro same
    rw [AtRelation, same, other] at h
    cases h
  rw [mark, bind_eq_of_ok here, distinct]
  exact ⟨_, rfl⟩

theorem fails_bind {β : Type} {p : Parser α} {f : α → Parser β} {c : Cursor} (h : Fails (p c)) :
    Fails ((p >>= f) c) := by
  obtain ⟨e, failed⟩ := h
  exact ⟨e, bind_eq_of_error failed⟩

end Closing

section Operands
variable {ns : Namespaces} {s rest : Text} {g g' : Nat → Prop} {x : Expression} {k : Nat}

/-- A whole expression between brackets. -/
theorem fares_bracketedExpression (h : ReadsTier ns k s g x) (n : Nat) :
    Fares (bracketedExpression (Level.ofAllowance ns n)) (Text.bracketed s) (g n) x rest := by
  refine Fares.then (s := [Byte.lparen]) (t := s ++ [Byte.rparen])
    (fares_mark _ (opens_lparen _)) ?_
  refine (Strays.close (h.expression n (endsExpression_rparen rest))
    ((fares_mark _ (opens_rparen rest)).bind_pure rfl) ?_).congr (and_iff_left trivial)
  exact fun x c relation => fails_bind (mark_fails _ relation rfl)

theorem fares_operand (noPrefix : isPrefixOperator (s ++ rest).first = false) {n : Nat} {g : Prop}
    (h : Fares (primaryExpression (Level.ofAllowance ns n)) s g x rest) :
    Fares (Level.ofAllowance ns (n + 1)).operand s g x rest := by
  refine Reads.position (Reads.lexeme rfl ?_)
  rw [noPrefix]
  exact h

/-- An operand that is read within a level needs one more of them. -/
theorem readsTier_of_operand
    (h : ∀ n rest, EndsExpression 6 rest →
      Fares (Level.ofAllowance ns (n + 1)).operand s (g (n + 1)) x rest)
    (tooDeep : ¬ g 0) : ReadsTier ns 6 s g x where
  range := ⟨by decide, Nat.le_refl 6⟩
  operand _ n bound rest ends _ := by
    refine reads_otherwise ?_
    cases n with
    | zero => exact ⟨fun absurdity => absurd absurdity tooDeep, fun _ => ⟨_, rfl⟩, (h 0 rest ends).fewer⟩
    | succ n => exact h n rest ends
  chain := nofun
  relation := nofun

theorem readsTier_bracketed (h : ReadsTier ns k s g x) (inner : ∀ n, g' (n + 1) ↔ g n)
    (tooDeep : ¬ g' 0) : ReadsTier ns 6 (Text.bracketed s) g' x := by
  refine readsTier_of_operand (fun n rest _ => ?_) tooDeep
  have first : (Text.bracketed s ++ rest).first = .symbol .lparen :=
    Text.first_of_opens (opens_lparen _)
  refine fares_operand (by rw [first]; rfl) (Reads.position (Reads.lexeme first ?_))
  exact (fares_bracketedExpression h n).congr (inner n).symm

theorem opensExpression_bracketed (s : Text) : OpensExpression (Text.bracketed s) where
  head := ⟨_, _, rfl, by decide⟩
  first rest _ := by
    show startsExpression (Text.first (Byte.lparen :: (s ++ [Byte.rparen] ++ rest))) = true
    rw [Text.first_of_opens (opens_lparen _)]
    rfl

/-- An expression as an operand, between brackets if it needs them. -/
theorem ReadsExpression.operand {indent : Nat} {e : Expression} (h : ReadsExpression ns indent e)
    {b : Bool} {j : Nat} (high : j ≤ 6) (fits : b = false → j ≤ e.tier) :
    ∃ k, j ≤ k ∧ ReadsTier ns k (Path.bracketedIf b (e.write ns indent).text)
      (fun n => e.FitsIn b n) (e.rewrite reread) := by
  cases b with
  | false => exact ⟨e.tier, fits rfl, h.tiers⟩
  | true =>
      exact ⟨6, high, readsTier_bracketed h.tiers (fun n => Expression.fitsIn_true)
        Expression.not_fitsIn_zero⟩

theorem ReadsExpression.opens_operand {indent : Nat} {e : Expression}
    (h : ReadsExpression ns indent e) (bracketed : Bool) :
    OpensExpression (Path.bracketedIf bracketed (e.write ns indent).text) := by
  cases bracketed with
  | false => exact h.opening
  | true => exact opensExpression_bracketed _

end Operands

section Terms
variable {ns : Namespaces} {rest : Text} {t : Term} {indent : Nat} {span : Span}

theorem isPrefixOperator_of_opened {node : Node} {l : Lexeme} {behind : Text}
    (h : Node.OpenedBy ns false node l behind) : isPrefixOperator l = false := by
  cases h with
  | iri spells => cases spells <;> rfl
  | sign _ absurdity => cases absurdity
  | _ => rfl

theorem startsExpression_of_opened {node : Node} {l : Lexeme} {behind : Text}
    (h : Node.OpenedBy ns false node l behind) (noBlank : node.isBlank = false) :
    startsExpression l = true := by
  cases h with
  | iri spells => cases spells <;> rfl
  | truth hk => rcases hk with rfl | rfl <;> rfl
  | sign _ absurdity => cases absurdity
  | blank => cases noBlank
  | _ => rfl

theorem fares_termExpression (hns : ns.Labelled) (h : t.node.Legal false) (clean : t.node.Clean)
    (ends : EndsTerm rest) (n : Nat) :
    Fares (termExpression (Level.ofAllowance ns n)) (t.write ns) True (.term (bare t) {}) rest := by
  refine Reads.position ?_
  rw [namespaces_ofAllowance]
  refine (fares_varOrTerm hns h clean ends).bind_pure ?_
  rw [bind_eq_of_ok (position_before rest)]
  rfl

/-- A term that no bracket of a call follows. -/
theorem fares_primary_term (hns : ns.Labelled) (h : t.node.Legal false) (clean : t.node.Clean)
    (noBlank : t.node.isBlank = false) (ends : EndsExpression 6 rest) (n : Nat) :
    Fares (primaryExpression (Level.ofAllowance ns n)) (t.write ns) True (.term (bare t) {}) rest := by
  obtain ⟨l, behind, opens, opened⟩ := opens_term hns h clean ends.parts
  have plain := fares_termExpression hns h clean ends.toEndsTerm n
  refine Reads.position (Reads.lexeme (Text.first_of_opens opens) ?_)
  obtain ⟨node, span⟩ := t
  cases node with
  | iri value =>
      have read : Fares (iriExpression (Level.ofAllowance ns n)) (ns.writeIri value) True
          (.term ⟨.iri value, {}⟩ {}) rest := by
        refine Reads.position ?_
        rw [namespaces_ofAllowance]
        refine (fares_iriTerm_writeIri hns h clean ends.parts).bind_pure ?_
        rw [bind_eq_of_ok (tryMark_before ends.noCall)]
        simp only [Bool.false_eq_true, if_false]
        rw [bind_eq_of_ok (position_before rest)]
        rfl
      rw [bare_eq]
      cases opened with
      | iri spells =>
          cases spells with
          | reference => exact read
          | name => exact read
  | literal l =>
      cases opened with
      | string => exact plain
      | number => exact plain
      | truth hk => rcases hk with rfl | rfl <;> exact plain
      | sign _ absurdity => cases absurdity
  | blank label => cases noBlank
  | var name =>
      cases opened
      exact plain

theorem head_term (hns : ns.Labelled) (h : t.node.Legal false) :
    ∃ b more, t.write ns = b :: more ∧ b ≠ Byte.equals := by
  obtain ⟨node, span⟩ := t
  cases node with
  | iri value =>
      obtain ⟨b, s, same, head⟩ := Namespaces.head_writeIri hns value
      refine ⟨b, s, same, ?_⟩
      have plain := Byte.marksPath_eq_false head
      rintro rfl
      cases plain
  | literal l =>
      show ∃ b more, l.write ns = b :: more ∧ b ≠ Byte.equals
      cases h with
      | @number sign digits kind hsign allowed numeral =>
          obtain rfl := allowed rfl
          obtain ⟨b, more, rfl, digit⟩ := isDigit_head_numeral numeral
          refine ⟨b, more, rfl, ?_⟩
          rintro rfl
          cases digit
      | _ => exact ⟨_, _, rfl, by decide⟩
  | blank label => exact ⟨_, _, rfl, by decide⟩
  | var name => exact ⟨_, _, rfl, by decide⟩

theorem readsExpression_term (hns : ns.Labelled) (h : t.node.Legal false) (clean : t.node.Clean)
    (noBlank : t.node.isBlank = false) : ReadsExpression ns indent (.term t span) := by
  have written : ((Expression.term t span).write ns indent).text = t.write ns := by
    rw [Expression.write, Passage.text_part]
  refine ⟨?_, ?_, nofun⟩
  · rw [written]
    refine ⟨head_term hns h, fun rest parts => ?_⟩
    obtain ⟨l, behind, opens, opened⟩ := opens_term hns h clean parts
    rw [Text.first_of_opens opens]
    exact startsExpression_of_opened opened noBlank
  · rw [written]
    refine readsTier_of_operand (fun n rest ends => ?_) fun fits => ?_
    · obtain ⟨l, behind, opens, opened⟩ := opens_term hns h clean ends.parts
      refine fares_operand ?_ ((fares_primary_term hns h clean noBlank ends n).congr ?_)
      · rw [Text.first_of_opens opens]
        exact isPrefixOperator_of_opened opened
      · exact iff_of_true trivial (Expression.fits_term.mpr (Nat.le_add_left 1 n))
    · exact absurd (Expression.fits_term.mp fits) (by decide)

end Terms

end Grammar

end SparqlMetrics
