import SparqlMetrics.Proofs.Reading.Operators

/-!
# Reading lists of expressions

The arguments of calls and the items of membership tests are read back from their written form.
Whatever an expression between brackets stops at, the closing bracket is not found there.
-/
namespace SparqlMetrics

open Lexeme

namespace Grammar

open SparqlMetrics.Parser TwoRuns Cursor

section Lists
variable {ns : Namespaces} {indent : Nat} {n limit : Nat} {p : Parser Expression} {rest : Text}
  {es : List Expression}

/-- What is asked of the reader of the items of a list. -/
def ReadsListItems (ns : Namespaces) (indent n limit : Nat) (p : Parser Expression)
    (es : List Expression) : Prop :=
  ∀ e ∈ es, OpensExpression (e.write ns indent).text ∧ ∀ t, EndsExpression 1 t →
    ((e.write ns indent).text ++ t).tokens ≤ limit →
    Strays p (e.write ns indent).text (e.Fits n) (e.rewrite reread) t

theorem text_writeMore (ns : Namespaces) (indent : Nat) (es : List Expression) :
    (Expression.writeMore ns indent es).text =
      es.flatMap fun e => [Byte.comma, Byte.space] ++ (e.write ns indent).text := by
  have comma : utf8 ", " = [Byte.comma, Byte.space] := by decide
  induction es with
  | nil => rw [Expression.writeMore]; rfl
  | cons e es ih => rw [Expression.writeMore, List.flatMap_cons, ← ih]; simp [comma]

theorem opens_comma (rest : Text) : Opens (Byte.comma :: rest) (.symbol .comma) rest :=
  opens_byte (by decide) rest

theorem endsExpression_comma (rest : Text) : EndsExpression 1 (Byte.comma :: rest) :=
  endsExpression_of_opens (opens_comma rest) (stopsAt_cons (by decide)) rfl nofun (by decide)

/-- Behind an action that may stray, one that takes no token. -/
theorem Strays.steady {α β : Type} {p : Parser α} {f : α → Parser β} {s : Text} {g : Prop} {x : α}
    {y : β} (h : Strays p s g x rest) (stays : ∀ x c, ∃ y, f x c = .ok (y, c))
    (hf : f x (before rest) = .ok (y, before rest)) : Strays (p >>= f) s g y rest :=
  Reads.steady (j := 1) h stays hf

theorem tryMark_of_relation {m : Symbol} {c : Cursor} (h : AtRelation c)
    (other : isRelational (.symbol m) = false) : tryMark m c = .ok (false, c) := by
  have distinct : (c.token.lexeme == Lexeme.symbol m) = false := by
    rw [beq_eq_false_iff_ne]
    intro same
    rw [AtRelation, same, other] at h
    cases h
  have here : isAt m c = .ok (false, c) := by rw [isAt, distinct]
  rw [tryMark, bind_eq_of_ok here]
  rfl

theorem strays_moreExpressions (h : ReadsListItems ns indent n limit p es)
    (enough : ((Expression.writeMore ns indent es).text ++ Byte.rparen :: rest).tokens ≤ limit) :
    Strays (moreExpressions p) (Expression.writeMore ns indent es).text (∀ e ∈ es, e.Fits n)
      (es.map (Expression.rewrite reread)) (Byte.rparen :: rest) := by
  rw [text_writeMore] at enough ⊢
  have items : ReadsItemsUpTo limit Derails (do if ← tryMark .comma then some <$> p else pure none)
      (EndsExpression 1) (fun e : Expression => [Byte.comma, Byte.space] ++ (e.write ns indent).text)
      (fun e => e.Fits n) (Expression.rewrite reread) es := by
    refine ⟨fun e member t ends few => ?_, fun _ _ _ _ => endsExpression_comma _,
      fun _ _ => List.cons_ne_nil _ _⟩
    obtain ⟨opening, reads⟩ := h e member
    have opens := opens_comma (Byte.space :: (e.write ns indent).text ++ t)
    have fewer : ((e.write ns indent).text ++ t).tokens ≤ limit := by
      have count := Text.tokens_of_opens opens
      have same := Text.tokens_space (b := Byte.space) ((e.write ns indent).text ++ t) (by decide)
      have bound : Text.tokens (Byte.comma :: (Byte.space :: (e.write ns indent).text ++ t)) ≤ limit :=
        few
      rw [count, List.cons_append, same] at bound
      omega
    have read := (reads t ends fewer).space (b := Byte.space) (by decide) opening.ne_nil
    refine Fares.then_strays (s := [Byte.comma]) (x := true) (fares_tryMark opens) ?_
    exact Strays.steady (f := fun x => pure (some x)) read (fun x c => ⟨_, rfl⟩) rfl
  have idle : ∀ c, AtRelation c →
      (do if ← tryMark .comma then some <$> p else pure none : Parser (Option Expression)) c =
        .ok (none, c) := fun c relation => bind_eq_of_ok (tryMark_of_relation relation rfl)
  have stop : (do if ← tryMark .comma then some <$> p else pure none : Parser (Option Expression))
      (before (Byte.rparen :: rest)) = .ok (none, before (Byte.rparen :: rest)) :=
    bind_eq_of_ok (tryMark_before (by rw [Text.first_of_opens (opens_rparen rest)]; nofun))
  exact items.many (endsExpression_rparen rest) (resumes_derails idle) stop enough

/-- A list up to its closing bracket. -/
theorem strays_expressionList (h : ReadsListItems ns indent n limit p es)
    (enough : ((Expression.writeList ns indent es).text ++ Byte.rparen :: rest).tokens ≤ limit) :
    Strays (expressionList p) (Expression.writeList ns indent es).text (∀ e ∈ es, e.Fits n)
      (es.map (Expression.rewrite reread)) (Byte.rparen :: rest) := by
  cases es with
  | nil =>
      have first := Text.first_of_opens (opens_rparen rest)
      have nothing : (Expression.writeList ns indent []).text = [] := by
        rw [Expression.writeList, Passage.text_empty]
      rw [nothing]
      exact Reads.congr (Reads.isAt (b := true) (by rw [List.nil_append, first]; rfl)
        (reads_nothing rfl)) (iff_of_true trivial nofun)
  | cons e es =>
      obtain ⟨opening, reads⟩ := h e List.mem_cons_self
      have more : ReadsListItems ns indent n limit p es := fun e member =>
        h e (List.mem_cons_of_mem _ member)
      have written : (Expression.writeList ns indent (e :: es)).text =
          (e.write ns indent).text ++ (Expression.writeMore ns indent es).text := by
        rw [Expression.writeList, Passage.text_append]
      rw [written, List.append_assoc] at enough
      have endsFirst : EndsExpression 1
          ((Expression.writeMore ns indent es).text ++ Byte.rparen :: rest) := by
        rw [text_writeMore]
        cases es with
        | nil => exact endsExpression_rparen rest
        | cons e' es => exact endsExpression_comma _
      have first := reads _ endsFirst enough
      have fewer := first.fewer opening.ne_nil
      have behind : Strays (moreExpressions p) (Expression.writeMore ns indent es).text
          (∀ e ∈ es, e.Fits n) (es.map (Expression.rewrite reread)) (Byte.rparen :: rest) :=
        strays_moreExpressions more (by omega)
      have noClose : Text.first ((e.write ns indent).text ++
          (Expression.writeMore ns indent es).text ++ Byte.rparen :: rest) ≠ .symbol .rparen := by
        rw [List.append_assoc]
        intro same
        have starts := opening.first _ endsFirst.parts
        rw [same] at starts
        cases starts
      rw [written]
      refine Reads.isAt (b := false) (beq_eq_false_iff_ne.mpr noClose) ?_
      refine (Strays.bind first (behind.steady (fun xs c => ⟨_, rfl⟩) rfl) fun x c relation => ?_).congr
        List.forall_mem_cons.symm
      have idle : (do if ← tryMark .comma then some <$> p else pure none : Parser (Option Expression))
          c = .ok (none, c) := bind_eq_of_ok (tryMark_of_relation relation rfl)
      have noMore : moreExpressions p c = .ok ([], c) := manyUpTo_idle idle _
      rw [bind_eq_of_ok noMore]
      exact .inr ⟨[x], c, rfl, relation⟩

/-- A list and the bracket that closes it. -/
theorem fares_closedList {β : Type} {f : List Expression → Parser β} {y : β}
    (h : ReadsListItems ns indent n limit p es)
    (enough : ((Expression.writeList ns indent es).text ++ Byte.rparen :: rest).tokens ≤ limit)
    (hf : Fares (f (es.map (Expression.rewrite reread))) [Byte.rparen] True y rest)
    (fails : ∀ xs c, AtRelation c → Fails (f xs c)) :
    Fares (expressionList p >>= f) ((Expression.writeList ns indent es).text ++ [Byte.rparen])
      (∀ e ∈ es, e.Fits n) y rest :=
  (Strays.close (strays_expressionList h enough) hf fails).congr (and_iff_left trivial)

theorem readsListItems_expression (h : ∀ e ∈ es, ReadsExpression ns indent e) (n limit : Nat) :
    ReadsListItems ns indent n limit (expression (Level.ofAllowance ns n)) es :=
  fun e member => ⟨(h e member).opening, fun _ ends _ => (h e member).tiers.expression n ends⟩

theorem readsListItems_upTo (h : ∀ e ∈ es, ReadsExpression ns indent e) (n limit : Nat) :
    ReadsListItems ns indent n limit (expressionUpTo (Level.ofAllowance ns n) (limit + 1)) es :=
  fun e member => ⟨(h e member).opening, fun t ends enough =>
    (h e member).tiers.reads (Nat.le_refl 1) (h e member).tiers.range.1 n limit t ends enough⟩

end Lists

section Membership
variable {ns : Namespaces} {indent : Nat} {n : Nat} {rest : Text} {left : Expression}
  {items : List Expression} {span : Span} {negated : Bool}

def memberWords (negated : Bool) : Text :=
  if negated then Byte.space :: utf8 "NOT" ++ Byte.space :: utf8 "IN" else Byte.space :: utf8 "IN"

theorem write_member :
    ((Expression.member negated (left :: items) span).write ns indent).text =
      Path.bracketedIf (left.breaksBinary comparisonPrecedence false) (left.write ns indent).text ++
        (memberWords negated ++ ([Byte.space, Byte.lparen] ++
          ((Expression.writeList ns indent items).text ++ [Byte.rparen]))) := by
  have words : utf8 (if negated then " NOT IN " else " IN ") = memberWords negated ++ [Byte.space] := by
    cases negated <;> decide
  rw [Expression.write]
  simp only [Passage.text_append, Passage.text_bracketedIf, Passage.text_part, words,
    Passage.text_bracketed, Text.bracketed, List.append_assoc]
  rfl

theorem opens_wordSpaced (k : Keyword) {t : Text} (breaks : Breaks t) :
    Opens (Byte.space :: utf8 k.name ++ t) (.keyword k (utf8 k.name)) t :=
  (opens_keyword k breaks).space (by decide)

theorem opens_spacedParen (rest : Text) :
    Opens ([Byte.space, Byte.lparen] ++ rest) (.symbol .lparen) rest :=
  (opens_lparen rest).space (by decide)

theorem membership?_before (s : Text) : membership? (before s) =
    .ok (if s.first.keyword? == some .IN then some false
      else if s.first.keyword? == some .NOT && s.second.keyword? == some .IN then some true
      else none, before s) := by
  have noIn : isAtKeyword .IN (before s) = .ok (s.first.keyword? == some .IN, before s) := rfl
  have isNot : isAtKeyword .NOT (before s) = .ok (s.first.keyword? == some .NOT, before s) := rfl
  have following : followingLexeme (before s) = .ok (s.second, before s) := rfl
  rw [membership?, bind_eq_of_ok noIn]
  split
  · rfl
  · rw [bind_eq_of_ok isNot, bind_eq_of_ok following]
    split <;> rfl

/-- What the reader of a membership list does at its bracket. -/
def bracketedItems (p : Parser Expression) (negated : Bool) (left : Expression) :
    Parser Expression := do
  mark .lparen .openIn
  let items ← expressionList p
  mark .rparen .closeIn
  pure (.member negated (left :: items) ⟨left.span.start, ← position⟩)

/-- The brackets of a membership list with its items. -/
theorem fares_bracketedItems {p : Parser Expression} {limit : Nat}
    (h : ReadsListItems ns indent n limit p items)
    (enough : ((Expression.writeList ns indent items).text ++ Byte.rparen :: rest).tokens ≤ limit)
    (bareLeft : left.span.start = 0) :
    Fares (bracketedItems p negated left)
      ([Byte.space, Byte.lparen] ++ ((Expression.writeList ns indent items).text ++ [Byte.rparen]))
      (∀ e ∈ items, e.Fits n)
      (.member negated (left :: items.map (Expression.rewrite reread)) {}) rest := by
  refine Fares.then (fares_mark _ (opens_spacedParen _)) ?_
  refine fares_closedList h enough ((fares_mark _ (opens_rparen rest)).bind_pure ?_) ?_
  · rw [bind_eq_of_ok (position_before rest), bareLeft]
    rfl
  · exact fun xs c relation => fails_bind (mark_fails _ relation rfl)

/-- The words of a membership test and its list behind a left side. -/
theorem fares_behindSum_member {level : Level} {p : Parser Expression} {t : Text} {g : Prop}
    {y : Expression} (list : Fares (bracketedItems p negated left) t g y rest)
    (breaks : Breaks (t ++ rest)) :
    Fares (behindSum level p left) (memberWords negated ++ t) g y rest := by
  have noSign : ∀ {k : Keyword} {spelled s : Text}, s.first = .keyword k spelled →
      extendBy isComparison (sum level) left (before s) = .ok (none, before s) :=
    fun first => extendBy_idle (show isComparison (Text.first _) = false by rw [first]; rfl)
  have opensIn := opens_wordSpaced .IN breaks
  cases negated with
  | false =>
      have opens : Opens (memberWords false ++ t ++ rest) (.keyword .IN (utf8 "IN")) (t ++ rest) := by
        rw [List.append_assoc]
        exact opensIn
      have first := Text.first_of_opens opens
      refine Reads.peek (noSign first) (Reads.peek (x := some false) ?_ ?_)
      · rw [membership?_before, first]
        rfl
      · exact Fares.then (fares_skip opensIn) list
  | true =>
      have opensNot := opens_wordSpaced .NOT (t := Byte.space :: utf8 "IN" ++ (t ++ rest))
        (stopsAt_cons (by decide))
      have opens : Opens (memberWords true ++ t ++ rest) (.keyword .NOT (utf8 "NOT"))
          (Byte.space :: utf8 "IN" ++ (t ++ rest)) := by
        rw [memberWords, if_pos rfl, List.append_assoc, List.append_assoc]
        exact opensNot
      have first := Text.first_of_opens opens
      have second : (memberWords true ++ t ++ rest).second = .keyword .IN (utf8 "IN") := by
        rw [Text.second_of_opens opens]
        exact Text.first_of_opens opensIn
      refine Reads.peek (noSign first) (Reads.peek (x := some true) ?_ ?_)
      · rw [membership?_before, first, second]
        rfl
      · rw [memberWords, if_pos rfl, List.append_assoc]
        refine Fares.then (s := Byte.space :: utf8 "NOT") (x := ()) ?_ ?_
        · rw [List.append_assoc]
          exact fares_skip opensNot
        · exact Fares.then (fares_skip opensIn) list

/-- The words of a membership test end the expression on their left, and hold a token. -/
theorem endsExpression_memberWords (negated : Bool) {t : Text} (breaks : Breaks t) :
    EndsExpression 4 (memberWords negated ++ t) ∧
      isRelational (memberWords negated ++ t).first = true ∧
      t.tokens < (memberWords negated ++ t).tokens := by
  have opensIn := opens_wordSpaced .IN breaks
  have ended : ∀ {k : Keyword} {s behind : Text}, Opens s (.keyword k (utf8 k.name)) behind →
      Parts s → isRelational (.keyword k (utf8 k.name)) = true →
      EndsExpression 4 s ∧ isRelational s.first = true := by
    intro k s behind opens parts relation
    refine ⟨endsExpression_of_opens opens parts rfl nofun ?_, ?_⟩
    · rw [tightness_of_isRelational relation]
      decide
    · rw [Text.first_of_opens opens]
      exact relation
  cases negated with
  | false =>
      obtain ⟨ends, relation⟩ := ended opensIn (stopsAt_cons (by decide)) (by decide)
      exact ⟨ends, relation, (Text.tokens_of_opens opensIn) ▸ Nat.lt_succ_self _⟩
  | true =>
      have opensNot := opens_wordSpaced .NOT (t := Byte.space :: utf8 "IN" ++ t)
        (stopsAt_cons (by decide))
      have same : memberWords true ++ t = Byte.space :: utf8 "NOT" ++ (Byte.space :: utf8 "IN" ++ t) := by
        rw [memberWords, if_pos rfl, List.append_assoc]
      obtain ⟨ends, relation⟩ := ended opensNot (stopsAt_cons (by decide)) (by decide)
      have first := Text.tokens_of_opens opensNot
      have second := Text.tokens_of_opens opensIn
      rw [same]
      refine ⟨ends, relation, Nat.lt_of_lt_of_eq ?_ first.symm⟩
      exact Nat.lt_succ_of_lt (Nat.lt_of_lt_of_eq (Nat.lt_succ_self _) second.symm)

/-- A membership test of an operand in a list. -/
theorem readsExpression_member (hleft : ReadsExpression ns indent left)
    (h : ∀ e ∈ items, ReadsExpression ns indent e) :
    ReadsExpression ns indent (.member negated (left :: items) span) := by
  have opening := hleft.opens_operand (left.breaksBinary comparisonPrecedence false)
  refine ⟨?_, ⟨⟨(by decide : 1 ≤ 3), (by decide : 3 ≤ 6)⟩, nofun, nofun,
    fun _ n bound rest ends enough => ?_⟩, nofun⟩
  · rw [write_member]
    refine ⟨?_, fun rest _ => ?_⟩
    · obtain ⟨b, more, same, other⟩ := opening.head
      rw [same]
      exact ⟨b, _, rfl, other⟩
    · rw [List.append_assoc]
      exact opening.first _ (by cases negated <;> exact stopsAt_cons (by decide))
  · rw [write_member] at enough ⊢
    rw [List.append_assoc] at enough
    have breaks : Breaks ([Byte.space, Byte.lparen] ++
        ((Expression.writeList ns indent items).text ++ [Byte.rparen]) ++ rest) :=
      stopsAt_cons (by decide)
    obtain ⟨endsLeft, relation, fewer⟩ := endsExpression_memberWords negated breaks
    rw [← List.append_assoc (memberWords negated)] at endsLeft relation fewer
    have inside := Text.tokens_of_opens (opens_spacedParen
      ((Expression.writeList ns indent items).text ++ Byte.rparen :: rest))
    have shape : [Byte.space, Byte.lparen] ++
        ((Expression.writeList ns indent items).text ++ [Byte.rparen]) ++ rest =
        [Byte.space, Byte.lparen] ++
          ((Expression.writeList ns indent items).text ++ Byte.rparen :: rest) := by
      simp
    rw [← shape] at inside
    refine (strays_compared hleft endsLeft relation enough fun bounded => ?_).congr
      Expression.fits_member.symm
    obtain ⟨bound, rfl⟩ : ∃ b, bound = b + 1 := ⟨bound - 1, by omega⟩
    refine fares_behindSum_member ?_ breaks
    have value : (Expression.member negated (left :: items) span).rewrite reread =
        .member negated (left.rewrite reread :: items.map (Expression.rewrite reread)) {} := by
      rw [Expression.rewrite, Expression.rewriteAll, Expression.rewriteAll_eq_map]
      rfl
    rw [value]
    exact fares_bracketedItems (readsListItems_upTo h n bound) (by omega) (span_rewrite left)

end Membership

end Grammar

end SparqlMetrics
