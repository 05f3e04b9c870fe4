import SparqlMetrics.Proofs.Reading.Braces

/-!
# Reading conditions

Constraints, named expressions, and the lists of projected items, grouping conditions and ordering
conditions. Each item of a list has a space in front of it, and the list ends where a lexeme follows
that opens no item.
-/
namespace SparqlMetrics

open Lexeme

namespace Grammar

open SparqlMetrics.Parser TwoRuns Cursor

section Failures
variable {β : Type} {c : Cursor}

/-- No other keyword is passed over where a membership test goes on. -/
theorem keyword_of_relation {k : Keyword} (h : AtRelation c) (noIn : k ≠ .IN) (noNot : k ≠ .NOT) :
    c.token.lexeme.keyword? ≠ some k := by
  unfold AtRelation at h
  cases here : c.token.lexeme with
  | keyword k' spelled =>
      rw [here] at h
      rintro ⟨⟩
      cases k <;> first | exact absurd rfl noIn | exact absurd rfl noNot | cases h
  | _ => nofun

theorem keyword_fails {k : Keyword} (e : Expectation) (h : AtRelation c) (noIn : k ≠ .IN)
    (noNot : k ≠ .NOT) : Fails (keyword k e c) := by
  have here : isAtKeyword k c = .ok (false, c) := by
    have other : (c.token.lexeme.keyword? == some k) = false :=
      beq_eq_false_iff_ne.mpr (keyword_of_relation h noIn noNot)
    rw [isAtKeyword, other]
  rw [Parser.keyword, bind_eq_of_ok here]
  exact ⟨_, rfl⟩

end Failures

section Constraints
variable {β : Type} {ns : Namespaces} {indent n : Nat} {e : Expression} {rest : Text}
  {o : Except ParseError (β × Cursor) → Prop} {f : Bool → Parser β} {s : Text} {g : Prop} {y : β}

theorem Reads.atConstraint {b : Bool}
    (h : startsConstraint (s ++ rest).first (s ++ rest).second = b)
    (hf : Reads o (f b) s g y rest) : Reads o (atConstraint >>= f) s g y rest :=
  Reads.peek (by rw [← h]; rfl) hf

def constraintText (ns : Namespaces) (indent : Nat) (e : Expression) : Text :=
  Path.bracketedIf (!e.standsAlone false) (e.write ns indent).text

theorem startsConstraint_constraint (h : ReadsExpression ns indent e) (rest : Text) :
    startsConstraint (constraintText ns indent e ++ rest).first
      (constraintText ns indent e ++ rest).second = true := by
  cases alone : e.standsAlone false with
  | true =>
      have starts := (h.alone alone 0 rest).starts
      rw [constraintText, alone]
      exact (Bool.and_eq_true_iff.mp starts).2
  | false =>
      have first : (constraintText ns indent e ++ rest).first = .symbol .lparen := by
        rw [constraintText, alone]
        exact Text.first_of_opens (opens_lparen _)
      rw [first]
      rfl

/-- A constraint, whatever follows it. -/
theorem fares_constraint (h : ReadsExpression ns indent e) :
    Fares (constraint (Level.ofAllowance ns n)) (constraintText ns indent e) (e.FitsAlone false n)
      (e.rewrite reread) rest := by
  refine Reads.atConstraint (startsConstraint_constraint h rest) ?_
  rw [if_pos rfl, constraintText, Expression.FitsAlone]
  cases alone : e.standsAlone false with
  | true => exact (h.alone alone n rest).primary
  | false =>
      refine Reads.position (Reads.lexeme (Text.first_of_opens (opens_lparen _)) ?_)
      exact fares_bracketedExpression h.tiers n

end Constraints

section Named
variable {β : Type} {ns : Namespaces} {indent n : Nat} {e : Expression} {rest t name : Text}
  {f : Expression → Parser β} {y : β}

theorem opens_as (t : Text) :
    Opens (Byte.space :: utf8 "AS" ++ Byte.space :: t) (.keyword .AS (utf8 "AS")) (Byte.space :: t) :=
  opens_wordSpaced .AS (stopsAt_cons (by decide))

/-- An expression in front of the keyword that names it. -/
theorem fares_naming (h : ReadsExpression ns indent e)
    (hf : Fares (f (e.rewrite reread)) (Byte.space :: utf8 "AS" ++ Byte.space :: t) True y rest)
    (fails : ∀ x c, AtRelation c → Fails (f x c)) :
    Fares (expression (Level.ofAllowance ns n) >>= f)
      ((e.write ns indent).text ++ (Byte.space :: utf8 "AS" ++ Byte.space :: t)) (e.Fits n) y
      rest := by
  have opens := opens_as (t ++ rest)
  have ends : EndsExpression 1 (Byte.space :: utf8 "AS" ++ Byte.space :: t ++ rest) := by
    rw [List.append_assoc]
    exact endsExpression_of_opens opens (stopsAt_cons (by decide)) rfl nofun (by decide)
  exact (Strays.close (h.tiers.expression n ends) hf fails).congr (and_iff_left trivial)

theorem text_namedExpression (value : Passage) (name : Text) :
    (namedExpression value name).text = [Byte.lparen] ++
      (value.text ++ (Byte.space :: utf8 "AS" ++ Byte.space :: (Byte.question :: name ++
        [Byte.rparen]))) := by
  have word : utf8 " AS ?" = Byte.space :: utf8 "AS" ++ [Byte.space, Byte.question] := by decide
  simp [namedExpression, Text.bracketed, word]

theorem opens_named (h : IsVariableName name) (rest : Text) :
    Opens (Byte.space :: (Byte.question :: name ++ Byte.rparen :: rest)) (.variableName name)
      (Byte.rparen :: rest) :=
  (opens_variable h (stopsAt_cons (by decide))).space (by decide)

end Named

section Items
variable {ns : Namespaces} {indent n : Nat} {rest : Text}

/-- The keywords that open a clause behind a list. -/
def clauseKeywords : List Keyword :=
  [.FROM, .WHERE, .GROUP, .HAVING, .ORDER, .LIMIT, .OFFSET, .VALUES]

/-- A lexeme that stands behind a list of items. -/
def closesList : Lexeme → Bool
  | .keyword k _ => clauseKeywords.contains k
  | .symbol m => m == .rbrace
  | .endOfInput => true
  | _ => false

theorem endsTerm_newline (closes : closesList rest.first = true) :
    EndsTerm (Byte.newline :: rest) where
  parts := stopsAt_cons (by decide)
  noTag := by
    rw [Text.first_space rest (by decide)]
    cases here : rest.first with
    | symbol m =>
        rw [here] at closes
        cases m <;> first | rfl | cases closes
    | languageTag tag =>
        rw [here] at closes
        cases closes
    | _ => rfl

theorem endsTerm_item {item t : Text} (h : (item ++ t).first.continuesString = false) :
    EndsTerm (Byte.space :: item ++ t) where
  parts := stopsAt_cons (by decide)
  noTag := by
    rw [List.cons_append, Text.first_space _ (by decide), h]

/-- A list of items behind a keyword and in front of the end of the line. -/
theorem fares_items {α ι : Type} {item : Parser (Option α)} {text : ι → Text} {g : ι → Prop}
    {value : ι → α} {xs : List ι} (nonempty : ∀ x ∈ xs, text x ≠ [])
    (reads : ∀ x ∈ xs, ∀ t, EndsTerm t → Fares item (text x) (g x) (some (value x)) t)
    (opens : ∀ x ∈ xs, ∀ t, EndsTerm t → (text x ++ t).first.continuesString = false)
    (closes : closesList rest.first = true)
    (stop : ∀ s : Text, closesList s.first = true → item (before s) = .ok (none, before s)) :
    Fares (many item) (xs.flatMap fun x => Byte.space :: text x) (∀ x ∈ xs, g x) (xs.map value)
      (Byte.newline :: rest) := by
  have items : ReadsItems Fails item EndsTerm (fun x => Byte.space :: text x) g value xs :=
    ⟨fun x member t ends => (reads x member t ends).space (by decide) (nonempty x member),
      fun x member t ends => endsTerm_item (opens x member t ends),
      fun _ _ => List.cons_ne_nil _ _⟩
  refine items.many (endsTerm_newline closes) (resumes_fails _) ?_
  have same := stop rest closes
  rw [before_space rest (by decide)]
  exact same

end Items

section Projections
variable {ns : Namespaces} {n : Nat} {rest : Text} {items : List Projection}

def projectionText (ns : Namespaces) (p : Projection) : Text :=
  match p.value with
  | none => Byte.question :: p.name
  | some value => (namedExpression (value.write ns 0) p.name).text

theorem text_projections (ns : Namespaces) (items : List Projection) :
    (Projection.writeList ns items).text =
      items.flatMap fun p => Byte.space :: projectionText ns p := by
  have word : utf8 " ?" = [Byte.space, Byte.question] := by decide
  induction items with
  | nil => rw [Projection.writeList]; rfl
  | cons p items ih =>
      obtain ⟨name, value, span⟩ := p
      cases value with
      | none => simp [Projection.writeList, ih, projectionText, word]
      | some value => simp [Projection.writeList, ih, projectionText]

/-- The name behind an expression and the bracket that closes both. -/
theorem fares_name {β : Type} {name : Text} {e e' e'' : Expectation} {f : Text → Parser β} {y : β}
    (h : IsVariableName name) (hf : f name (before rest) = .ok (y, before rest)) :
    Fares (do
        Parser.keyword .AS e
        let name ← variableName e'
        mark .rparen e''
        f name)
      (Byte.space :: utf8 "AS" ++ Byte.space :: (Byte.question :: name ++ [Byte.rparen])) True y
      rest := by
  have opens := opens_as (Byte.question :: name ++ [Byte.rparen] ++ rest)
  have shape : Byte.space :: (Byte.question :: name ++ [Byte.rparen]) =
      (Byte.space :: Byte.question :: name) ++ [Byte.rparen] := rfl
  refine Fares.then (fares_keyword e opens rfl) ?_
  rw [shape]
  refine Fares.then (s := Byte.space :: Byte.question :: name) (x := name)
    (fares_variableName _ ?_) ?_
  · exact opens_named h rest
  · exact (fares_mark _ (opens_rparen rest)).bind_pure hf

theorem fares_projection {p : Projection} (name : IsVariableName p.name)
    (value : ∀ e, p.value = some e → ReadsExpression ns 0 e) (parts : Parts rest) :
    Fares (projection? (Level.ofAllowance ns n)) (projectionText ns p) (p.Fits n)
      (some (p.rewrite reread)) rest := by
  obtain ⟨label, found, span⟩ := p
  cases found with
  | none =>
      have opens := opens_variable name parts.stopsAt_isNameByte
      have fits : Projection.Fits n ⟨label, none, span⟩ := by simp [Projection.Fits]
      refine (Reads.token (Text.first_of_opens opens) ?_).congr (iff_of_true trivial fits)
      exact (fares_skip opens).bind_pure rfl
  | some e =>
      have fits : Projection.Fits n ⟨label, some e, span⟩ ↔ e.Fits n := by
        simp [Projection.Fits]
      have written : projectionText ns ⟨label, some e, span⟩ = [Byte.lparen] ++
          ((e.write ns 0).text ++ (Byte.space :: utf8 "AS" ++ Byte.space :: (Byte.question :: label ++
            [Byte.rparen]))) := text_namedExpression _ _
      rw [written]
      refine (Reads.token (Text.first_of_opens (opens_lparen _)) ?_).congr fits.symm
      refine Fares.map (Reads.position ?_)
      refine Fares.then (s := [Byte.lparen]) (x := ()) (fares_skip (opens_lparen _)) ?_
      refine fares_naming (value e rfl) (fares_name name ?_) ?_
      · rw [bind_eq_of_ok (position_before rest)]
        rfl
      · exact fun _ _ relation => fails_bind (keyword_fails _ relation (by simp) (by simp))

def opensProjection : Lexeme → Bool
  | .variableName _ => true
  | .symbol m => m == .lparen
  | _ => false

theorem opens_projection {p : Projection} (name : IsVariableName p.name) (parts : Parts rest) :
    opensProjection (projectionText ns p ++ rest).first = true := by
  obtain ⟨label, found, span⟩ := p
  cases found with
  | none =>
      have opens : Opens (projectionText ns ⟨label, none, span⟩ ++ rest) (.variableName label)
          rest := opens_variable name parts.stopsAt_isNameByte
      rw [Text.first_of_opens opens]
      rfl
  | some e =>
      show opensProjection ((namedExpression (e.write ns 0) label).text ++ rest).first = true
      rw [text_namedExpression]
      exact congrArg opensProjection (Text.first_of_opens (opens_lparen _))

theorem continuesString_of_opensProjection {l : Lexeme} (h : opensProjection l = true) :
    l.continuesString = false := by
  cases l with
  | symbol m => cases m <;> first | rfl | cases h
  | languageTag tag => cases h
  | _ => rfl

theorem projection?_stops {s : Text} (closes : closesList s.first = true) (level : Level) :
    projection? level (before s) = .ok (none, before s) := by
  have here : Parser.token (before s) = .ok (⟨s.first, 0, 0⟩, before s) := by
    rw [← token_before]
    rfl
  rw [projection?, bind_eq_of_ok here]
  cases first : s.first with
  | symbol m =>
      rw [first] at closes
      cases m <;> first | rfl | cases closes
  | variableName name =>
      rw [first] at closes
      cases closes
  | _ => rfl

/-- The projected items of a selection. -/
theorem fares_projections (names : ∀ p ∈ items, IsVariableName p.name)
    (values : ∀ p ∈ items, ∀ e, p.value = some e → ReadsExpression ns 0 e)
    (closes : closesList rest.first = true) :
    Fares (many (projection? (Level.ofAllowance ns n))) (Projection.writeList ns items).text
      (∀ p ∈ items, p.Fits n) (items.map (Projection.rewrite reread)) (Byte.newline :: rest) := by
  rw [text_projections]
  refine fares_items ?_ ?_ ?_ closes fun s closes => projection?_stops closes _
  · intro p member
    obtain ⟨label, found, span⟩ := p
    cases found <;> simp [projectionText, text_namedExpression]
  · exact fun p member t ends => fares_projection (names p member) (values p member) ends.parts
  · intro p member t ends
    exact continuesString_of_opensProjection (opens_projection (names p member) ends.parts)

end Projections

section Operands
variable {ns : Namespaces} {indent n : Nat} {e : Expression} {s rest : Text}

/-- An action that does what another one does in front of a text. -/
theorem Reads.same {α : Type} {o : Except ParseError (α × Cursor) → Prop} {p q : Parser α} {g : Prop}
    {x : α} (h : p (before (s ++ rest)) = q (before (s ++ rest))) (hq : Reads o q s g x rest) :
    Reads o p s g x rest :=
  ⟨fun hg => h.trans (hq.result hg), fun hg => h ▸ hq.failure hg, hq.fewer⟩

def conditionText (ns : Namespaces) (indent : Nat) (e : Expression) : Text :=
  Path.bracketedIf (!e.standsAlone true) (e.write ns indent).text

/-- Such a condition is a variable or a constraint. -/
theorem condition_cases (e : Expression) :
    (∃ name termSpan span, e = .term ⟨.var name, termSpan⟩ span) ∨
      e.standsAlone true = e.standsAlone false := by
  cases e with
  | term t span =>
      obtain ⟨node, termSpan⟩ := t
      cases node with
      | var name => exact .inl ⟨name, termSpan, span, rfl⟩
      | _ => exact .inr rfl
  | _ => exact .inr rfl

theorem conditionText_of_same (ns : Namespaces) (indent : Nat)
    (same : e.standsAlone true = e.standsAlone false) :
    conditionText ns indent e = constraintText ns indent e := by
  rw [conditionText, constraintText, same]

theorem fitsAlone_of_same (same : e.standsAlone true = e.standsAlone false) :
    e.FitsAlone true n ↔ e.FitsAlone false n := by
  rw [Expression.FitsAlone, Expression.FitsAlone, same]

theorem fits_variable {name : Text} {termSpan span : Span} :
    (Expression.term ⟨.var name, termSpan⟩ span).FitsAlone true n :=
  Expression.fits_term.mpr (Nat.le_add_left 1 n)

theorem conditionText_variable (name : Text) (termSpan span : Span) :
    conditionText ns indent (.term ⟨.var name, termSpan⟩ span) = Byte.question :: name := by
  simp [conditionText, Expression.standsAlone, Node.varName?, Path.bracketedIf, Expression.write,
    Term.write]

theorem fares_variableCondition (hns : ns.Labelled) {name : Text} (h : IsVariableName name)
    (ends : EndsTerm rest) :
    Fares (variableCondition ns) (Byte.question :: name) True (.term ⟨.var name, {}⟩ {}) rest := by
  have term : Fares (varOrTerm ns) (Byte.question :: name) True ⟨.var name, {}⟩ rest :=
    @fares_varOrTerm ns rest hns true ⟨.var name, {}⟩ h trivial ends
  exact term.bind_pure rfl

theorem opens_constraint (h : ReadsExpression ns indent e) (rest : Text) :
    (constraintText ns indent e ++ rest).first.continuesString = false := by
  have starts := startsConstraint_constraint h rest
  cases here : (constraintText ns indent e ++ rest).first with
  | symbol m =>
      rw [here] at starts
      cases m <;> first | rfl | cases starts
  | languageTag tag =>
      rw [here] at starts
      cases starts
  | _ => rfl

theorem opens_condition (h : ReadsExpression ns indent e) (legal : e.Everywhere printableChecks)
    (parts : Parts rest) :
    (conditionText ns indent e ++ rest).first.continuesString = false := by
  rcases condition_cases e with ⟨name, termSpan, span, rfl⟩ | same
  · have opens := opens_variable legal.2.1 parts.stopsAt_isNameByte
    rw [conditionText_variable, List.cons_append, Text.first_of_opens opens]
    rfl
  · rw [conditionText_of_same ns indent same]
    exact opens_constraint h rest

theorem bracketedIf_ne_nil {s : Text} (h : s ≠ []) (needed : Bool) :
    Path.bracketedIf needed s ≠ [] := by
  cases needed with
  | false => exact h
  | true => exact List.cons_ne_nil _ _

theorem constraintText_ne_nil (h : ReadsExpression ns indent e) :
    constraintText ns indent e ≠ [] := bracketedIf_ne_nil h.opening.ne_nil _

theorem conditionText_ne_nil (h : ReadsExpression ns indent e) :
    conditionText ns indent e ≠ [] := bracketedIf_ne_nil h.opening.ne_nil _

theorem startsConstraint_of_closesList {l : Lexeme} (closes : closesList l = true) (l' : Lexeme) :
    startsConstraint l l' = false := by
  cases l with
  | symbol m => cases m <;> first | rfl | cases closes
  | keyword k spelled => cases k <;> first | rfl | cases closes
  | endOfInput => rfl
  | _ => cases closes

theorem atConstraint_before {b : Bool} (h : startsConstraint s.first s.second = b) :
    atConstraint (before s) = .ok (b, before s) := by
  rw [← h]
  rfl

end Operands

section Grouping
variable {ns : Namespaces} {indent n : Nat} {rest : Text} {c : GroupCondition}
  {conditions : List GroupCondition}

def groupText (ns : Namespaces) (indent : Nat) (c : GroupCondition) : Text :=
  match c.name with
  | none => conditionText ns indent c.value
  | some name => (namedExpression (c.value.write ns indent) name).text

theorem text_groupConditions (ns : Namespaces) (indent : Nat) (conditions : List GroupCondition) :
    (GroupCondition.writeList ns indent conditions).text =
      conditions.flatMap fun c => Byte.space :: groupText ns indent c := by
  induction conditions with
  | nil => rw [GroupCondition.writeList]; rfl
  | cons c rest ih =>
      obtain ⟨value, name⟩ := c
      cases name with
      | none => simp [GroupCondition.writeList, ih, groupText, conditionText]
      | some name => simp [GroupCondition.writeList, ih, groupText]

def bracketedCondition (level : Level) : Parser (Option GroupCondition) := do
  let value ← expression level
  let name ← conditionName?
  mark .rparen .closeGroupByExpression
  pure (some ⟨value, name⟩)

theorem conditionName?_none {c : Cursor} (h : c.token.lexeme.keyword? ≠ some .AS) :
    conditionName? c = .ok (none, c) := by
  rw [conditionName?, bind_eq_of_ok (tryKeyword_eq_false h)]
  rfl

theorem fails_conditionName {value : Expression} {c : Cursor} (h : AtRelation c) :
    Fails ((conditionName? >>= fun name => mark .rparen .closeGroupByExpression >>= fun _ =>
      pure (some (GroupCondition.mk value name)) : Parser (Option GroupCondition)) c) := by
  have other : c.token.lexeme.keyword? ≠ some .AS := keyword_of_relation h nofun nofun
  rw [bind_eq_of_ok (conditionName?_none other)]
  exact fails_bind (mark_fails _ h rfl)

/-- A named expression behind its bracket. -/
theorem fares_bracketedCondition_named {e : Expression} (h : ReadsExpression ns indent e)
    {name : Text} (hname : IsVariableName name) :
    Fares (bracketedCondition (Level.ofAllowance ns n))
      ((e.write ns indent).text ++ (Byte.space :: utf8 "AS" ++ Byte.space :: (Byte.question :: name ++
        [Byte.rparen]))) (e.Fits n) (some ⟨e.rewrite reread, some name⟩) rest := by
  refine fares_naming h ?_ fun _ _ => fails_conditionName
  have opens := opens_as (Byte.question :: name ++ [Byte.rparen] ++ rest)
  have shape : Byte.space :: utf8 "AS" ++ Byte.space :: (Byte.question :: name ++ [Byte.rparen]) =
      (Byte.space :: utf8 "AS" ++ Byte.space :: Byte.question :: name) ++ [Byte.rparen] := by
    simp
  have named : Fares conditionName? (Byte.space :: utf8 "AS" ++ Byte.space :: Byte.question :: name)
      True (some name) (Byte.rparen :: rest) := by
    refine Fares.then (s := Byte.space :: utf8 "AS") (x := true) ?_ ?_
    · exact fares_tryKeyword (opens_wordSpaced .AS (stopsAt_cons (by decide))) rfl
    · have read : Fares (some <$> Parser.variableName .variableAfterAsInGroupBy)
          (Byte.question :: name) True (some name) (Byte.rparen :: rest) :=
        (fares_variableName _ (opens_variable hname (stopsAt_cons (by decide)))).map
      exact read.space (b := Byte.space) (by decide) (List.cons_ne_nil _ _)
  rw [shape]
  exact Fares.then named ((fares_mark _ (opens_rparen rest)).bind_pure rfl)

/-- An expression without a name between brackets. -/
theorem fares_bracketedCondition {e : Expression} (h : ReadsExpression ns indent e) :
    Fares (bracketedCondition (Level.ofAllowance ns n)) ((e.write ns indent).text ++ [Byte.rparen])
      (e.Fits n) (some ⟨e.rewrite reread, none⟩) rest := by
  have close : Fares (conditionName? >>= fun name => mark .rparen .closeGroupByExpression >>= fun _ =>
      pure (some (GroupCondition.mk (e.rewrite reread) name)) : Parser (Option GroupCondition))
      [Byte.rparen] True (some ⟨e.rewrite reread, none⟩) rest := by
    refine Reads.peek (conditionName?_none ?_) ((fares_mark _ (opens_rparen rest)).bind_pure rfl)
    show (Text.first (Byte.rparen :: rest)).keyword? ≠ some .AS
    rw [Text.first_of_opens (opens_rparen rest)]
    nofun
  exact (Strays.close (h.tiers.expression n (endsExpression_rparen rest)) close
    fun _ _ => fails_conditionName).congr (and_iff_left trivial)

/-- A condition that is no variable and opens with no bracket. -/
theorem groupCondition?_alone {level : Level} {s : Text}
    (h : startsAlone s.first s.second = true) : groupCondition? level (before s) =
      (do return some ⟨← constraint level, none⟩ : Parser (Option GroupCondition)) (before s) := by
  have here : lexeme (before s) = .ok (s.first, before s) := rfl
  have open' := atConstraint_before (Bool.and_eq_true_iff.mp h).2
  rw [groupCondition?, bind_eq_of_ok here]
  cases first : s.first with
  | symbol m =>
      rw [first] at h
      cases m <;> cases h
  | variableName name =>
      rw [first] at h
      cases h
  | _ => exact bind_eq_of_ok open'

theorem groupCondition?_stops {s : Text} (closes : closesList s.first = true) (level : Level) :
    groupCondition? level (before s) = .ok (none, before s) := by
  have here : lexeme (before s) = .ok (s.first, before s) := rfl
  have close := atConstraint_before (startsConstraint_of_closesList closes s.second)
  rw [groupCondition?, bind_eq_of_ok here]
  cases first : s.first with
  | symbol m =>
      rw [first] at closes
      cases m <;> first | exact bind_eq_of_ok close | cases closes
  | variableName name =>
      rw [first] at closes
      cases closes
  | _ => exact bind_eq_of_ok close

/-- A condition that is a constraint, between brackets if it needs them. -/
theorem fares_groupCondition_constraint {e : Expression} (h : ReadsExpression ns indent e) :
    Fares (groupCondition? (Level.ofAllowance ns n)) (constraintText ns indent e)
      (e.FitsAlone false n) (some ⟨e.rewrite reread, none⟩) rest := by
  have read : Fares (constraint (Level.ofAllowance ns n)) (constraintText ns indent e)
      (e.FitsAlone false n) (e.rewrite reread) rest := fares_constraint h
  rw [constraintText, Expression.FitsAlone] at read ⊢
  cases alone : e.standsAlone false with
  | true =>
      rw [alone] at read
      have starts := (h.alone alone n rest).starts
      exact Reads.same (groupCondition?_alone starts) (read.bind_pure rfl)
  | false =>
      show Fares _ ([Byte.lparen] ++ ((e.write ns indent).text ++ [Byte.rparen])) (e.Fits n) _ _
      refine Reads.lexeme (Text.first_of_opens (opens_lparen _)) ?_
      refine Fares.then (s := [Byte.lparen]) (x := ()) (fares_skip (opens_lparen _)) ?_
      exact fares_bracketedCondition h

theorem fares_groupCondition (hns : ns.Labelled) (h : ReadsExpression ns indent c.value)
    (legal : c.value.Everywhere printableChecks)
    (names : ∀ name, c.name = some name → IsVariableName name) (ends : EndsTerm rest) :
    Fares (groupCondition? (Level.ofAllowance ns n)) (groupText ns indent c) (c.Fits n)
      (some ⟨c.value.rewrite reread, c.name⟩) rest := by
  obtain ⟨value, found⟩ := c
  cases found with
  | some name =>
      have written : groupText ns indent ⟨value, some name⟩ = [Byte.lparen] ++
          ((value.write ns indent).text ++ (Byte.space :: utf8 "AS" ++ Byte.space ::
            (Byte.question :: name ++ [Byte.rparen]))) := text_namedExpression _ _
      rw [written]
      refine Reads.lexeme (Text.first_of_opens (opens_lparen _)) ?_
      refine Fares.then (s := [Byte.lparen]) (x := ()) (fares_skip (opens_lparen _)) ?_
      exact fares_bracketedCondition_named h (names name rfl)
  | none =>
      show Fares _ (conditionText ns indent value) (value.FitsAlone true n) _ _
      rcases condition_cases value with ⟨name, termSpan, span, rfl⟩ | same
      · have opens := opens_variable legal.2.1 ends.parts.stopsAt_isNameByte
        rw [conditionText_variable]
        refine (Reads.lexeme (Text.first_of_opens opens) ?_).congr (iff_of_true trivial fits_variable)
        rw [namespaces_ofAllowance]
        exact (fares_variableCondition hns legal.2.1 ends).bind_pure rfl
      · rw [conditionText_of_same ns indent same, fitsAlone_of_same same]
        exact fares_groupCondition_constraint h

theorem opens_groupCondition (h : ReadsExpression ns indent c.value)
    (legal : c.value.Everywhere printableChecks) (parts : Parts rest) :
    (groupText ns indent c ++ rest).first.continuesString = false := by
  obtain ⟨value, found⟩ := c
  cases found with
  | none => exact opens_condition h legal parts
  | some name =>
      show ((namedExpression (value.write ns indent) name).text ++ rest).first.continuesString = false
      rw [text_namedExpression]
      exact congrArg Lexeme.continuesString (Text.first_of_opens (opens_lparen _))

/-- The conditions of a GROUP BY clause. -/
theorem fares_groupConditions (hns : ns.Labelled)
    (h : ∀ c ∈ conditions, ReadsExpression ns indent c.value)
    (legal : ∀ c ∈ conditions, c.value.Everywhere printableChecks)
    (names : ∀ c ∈ conditions, ∀ name, c.name = some name → IsVariableName name)
    (closes : closesList rest.first = true) :
    Fares (many (groupCondition? (Level.ofAllowance ns n)))
      (GroupCondition.writeList ns indent conditions).text (∀ c ∈ conditions, c.Fits n)
      (conditions.map (GroupCondition.rewrite reread)) (Byte.newline :: rest) := by
  rw [text_groupConditions]
  refine fares_items ?_ ?_ ?_ closes fun s closes => groupCondition?_stops closes _
  · intro c member
    obtain ⟨value, found⟩ := c
    cases found with
    | none => exact conditionText_ne_nil (h _ member)
    | some name => simp [groupText, text_namedExpression]
  · intro c member t ends
    exact fares_groupCondition hns (h c member) (legal c member) (names c member) ends
  · exact fun c member t ends => opens_groupCondition (h c member) (legal c member) ends.parts

end Grouping

section Having
variable {ns : Namespaces} {indent n : Nat} {rest : Text} {conditions : List Expression}

theorem text_constraints (ns : Namespaces) (indent : Nat) (conditions : List Expression) :
    (Expression.writeConstraints ns indent conditions).text =
      conditions.flatMap fun e => Byte.space :: constraintText ns indent e := by
  induction conditions with
  | nil => rw [Expression.writeConstraints]; rfl
  | cons e rest ih => simp [Expression.writeConstraints, ih, constraintText]

/-- The conditions of a HAVING clause. -/
theorem fares_havingConditions (h : ∀ e ∈ conditions, ReadsExpression ns indent e)
    (closes : closesList rest.first = true) :
    Fares (many do
        if ← atConstraint then some <$> constraint (Level.ofAllowance ns n) else pure none)
      (Expression.writeConstraints ns indent conditions).text
      (∀ e ∈ conditions, e.FitsAlone false n) (conditions.map (Expression.rewrite reread))
      (Byte.newline :: rest) := by
  rw [text_constraints]
  refine fares_items ?_ ?_ ?_ closes fun s closes => ?_
  · exact fun e member => constraintText_ne_nil (h e member)
  · intro e member t _
    exact Reads.atConstraint (startsConstraint_constraint (h e member) t)
      (fares_constraint (h e member)).map
  · exact fun e member t _ => opens_constraint (h e member) t
  · exact bind_eq_of_ok (atConstraint_before (startsConstraint_of_closesList closes s.second))

end Having

section Ordering
variable {ns : Namespaces} {indent n : Nat} {rest : Text} {c : OrderCondition}
  {conditions : List OrderCondition}

def directionKeyword? : Direction → Option Keyword
  | .unmarked => none
  | .ascending => some .ASC
  | .descending => some .DESC

def orderText (ns : Namespaces) (indent : Nat) (c : OrderCondition) : Text :=
  match directionKeyword? c.direction with
  | none => conditionText ns indent c.value
  | some k => utf8 k.name ++ Text.bracketed (c.value.write ns indent).text

theorem text_orderConditions (ns : Namespaces) (indent : Nat) (conditions : List OrderCondition) :
    (OrderCondition.writeList ns indent conditions).text =
      conditions.flatMap fun c => Byte.space :: orderText ns indent c := by
  induction conditions with
  | nil => rw [OrderCondition.writeList]; rfl
  | cons c rest ih =>
      obtain ⟨value, direction⟩ := c
      cases direction <;> simp [OrderCondition.writeList, ih, orderText, conditionText,
        Direction.wrap, directionKeyword?, Keyword.name]

/-- A condition that is a constraint. -/
theorem orderCondition?_constraint {level : Level} {s : Text}
    (h : startsConstraint s.first s.second = true) : orderCondition? level (before s) =
      (do return some ⟨← constraint level, .unmarked⟩ : Parser (Option OrderCondition))
        (before s) := by
  have here : lexeme (before s) = .ok (s.first, before s) := rfl
  have open' := atConstraint_before h
  rw [orderCondition?, bind_eq_of_ok here]
  cases first : s.first with
  | keyword k spelled =>
      rw [first] at h
      cases k <;> first | exact bind_eq_of_ok open' | cases h
  | variableName name =>
      rw [first] at h
      cases h
  | _ => exact bind_eq_of_ok open'

theorem orderCondition?_stops {s : Text} (closes : closesList s.first = true) (level : Level) :
    orderCondition? level (before s) = .ok (none, before s) := by
  have here : lexeme (before s) = .ok (s.first, before s) := rfl
  have close := atConstraint_before (startsConstraint_of_closesList closes s.second)
  rw [orderCondition?, bind_eq_of_ok here]
  cases first : s.first with
  | keyword k spelled =>
      rw [first] at closes
      cases k <;> first | exact bind_eq_of_ok close | cases closes
  | variableName name =>
      rw [first] at closes
      cases closes
  | _ => exact bind_eq_of_ok close

theorem first_directed (k : Keyword) (t rest : Text) :
    (utf8 k.name ++ Text.bracketed t ++ rest).first = .keyword k (utf8 k.name) := by
  rw [List.append_assoc]
  exact Text.first_of_opens (opens_keyword k (stopsAt_cons (by decide)))

/-- A condition behind the keyword of its direction. -/
theorem fares_directed {e : Expression} (h : ReadsExpression ns indent e) (k : Keyword)
    (direction : Direction) :
    Fares (do
        skip
        return some (OrderCondition.mk (← bracketedExpression (Level.ofAllowance ns n)) direction))
      (utf8 k.name ++ Text.bracketed (e.write ns indent).text) (e.Fits n)
      (some ⟨e.rewrite reread, direction⟩) rest :=
  Fares.then (fares_skip (opens_keyword k (stopsAt_cons (by decide))))
    ((fares_bracketedExpression h.tiers n).bind_pure rfl)

theorem fares_orderCondition (hns : ns.Labelled) (h : ReadsExpression ns indent c.value)
    (legal : c.value.Everywhere printableChecks) (ends : EndsTerm rest) :
    Fares (orderCondition? (Level.ofAllowance ns n)) (orderText ns indent c) (c.Fits n)
      (some ⟨c.value.rewrite reread, c.direction⟩) rest := by
  obtain ⟨value, direction⟩ := c
  cases direction with
  | ascending => exact Reads.lexeme (first_directed .ASC _ rest) (fares_directed h .ASC .ascending)
  | descending => exact Reads.lexeme (first_directed .DESC _ rest) (fares_directed h .DESC .descending)
  | unmarked =>
      show Fares _ (conditionText ns indent value) (value.FitsAlone true n) _ _
      rcases condition_cases value with ⟨name, termSpan, span, rfl⟩ | same
      · have opens := opens_variable legal.2.1 ends.parts.stopsAt_isNameByte
        rw [conditionText_variable]
        refine (Reads.lexeme (Text.first_of_opens opens) ?_).congr (iff_of_true trivial fits_variable)
        rw [namespaces_ofAllowance]
        exact (fares_variableCondition hns legal.2.1 ends).bind_pure rfl
      · rw [conditionText_of_same ns indent same, fitsAlone_of_same same]
        exact Reads.same (orderCondition?_constraint (startsConstraint_constraint h rest))
          ((fares_constraint h).bind_pure rfl)

theorem opens_orderCondition (h : ReadsExpression ns indent c.value)
    (legal : c.value.Everywhere printableChecks) (parts : Parts rest) :
    (orderText ns indent c ++ rest).first.continuesString = false ∧ orderText ns indent c ≠ [] := by
  obtain ⟨value, direction⟩ := c
  cases direction with
  | unmarked => exact ⟨opens_condition h legal parts, conditionText_ne_nil h⟩
  | ascending => exact ⟨congrArg _ (first_directed .ASC _ rest), List.cons_ne_nil _ _⟩
  | descending => exact ⟨congrArg _ (first_directed .DESC _ rest), List.cons_ne_nil _ _⟩

/-- The conditions of an ORDER BY clause. -/
theorem fares_orderConditions (hns : ns.Labelled)
    (h : ∀ c ∈ conditions, ReadsExpression ns indent c.value)
    (legal : ∀ c ∈ conditions, c.value.Everywhere printableChecks)
    (closes : closesList rest.first = true) :
    Fares (many (orderCondition? (Level.ofAllowance ns n)))
      (OrderCondition.writeList ns indent conditions).text (∀ c ∈ conditions, c.Fits n)
      (conditions.map (OrderCondition.rewrite reread)) (Byte.newline :: rest) := by
  rw [text_orderConditions]
  refine fares_items ?_ ?_ ?_ closes fun s closes => orderCondition?_stops closes _
  · intro c member
    exact (opens_orderCondition (h c member) (legal c member) (stopsAt_nil _)).2
  · exact fun c member t ends => fares_orderCondition hns (h c member) (legal c member) ends
  · exact fun c member t ends => (opens_orderCondition (h c member) (legal c member) ends.parts).1

end Ordering

end Grammar

end SparqlMetrics
