import SparqlMetrics.Proofs.Reading.Lists

/-!
# Reading calls

Calls of functions and aggregates are read back from their written form. They end with their own last
token, so they are constraints without brackets whatever follows them.
-/
namespace SparqlMetrics

open Lexeme

namespace Grammar

open SparqlMetrics.Parser TwoRuns Cursor

section Alone
variable {ns : Namespaces} {indent : Nat} {e : Expression} {rest : Text}

theorem startsExpression_of_startsAlone {l l' : Lexeme} (h : startsAlone l l' = true) :
    startsExpression l = true ∧ isPrefixOperator l = false := by
  cases l with
  | symbol m => cases m <;> cases h
  | keyword k spelled => cases k <;> first | exact ⟨rfl, rfl⟩ | cases h
  | _ => first | exact ⟨rfl, rfl⟩ | cases h

/-- An expression that opens a constraint and is read as a primary one, whatever follows it. -/
theorem readsExpression_alone (high : e.tier = 6) (deep : 1 ≤ e.nesting)
    (head : ∃ b more, (e.write ns indent).text = b :: more ∧ b ≠ Byte.equals)
    (alone : ∀ n rest, ReadsAlone ns indent e n rest) : ReadsExpression ns indent e where
  opening := ⟨head, fun rest _ => (startsExpression_of_startsAlone (alone 0 rest).starts).1⟩
  tiers := by
    rw [high]
    refine readsTier_of_operand (fun n rest _ => ?_) (Expression.not_fits_zero deep)
    obtain ⟨starts, primary⟩ := alone n rest
    exact fares_operand (startsExpression_of_startsAlone starts).2 primary
  alone _ := alone

end Alone

section Words
variable {name rest : Text}

/-- A name of a function or an aggregate. -/
theorem opens_name (word : IsWord name) (noKeyword : Keyword.ofCapitals? name.toUpper = none)
    (breaks : Breaks rest) : Opens (name ++ rest) (.identifier name) rest := by
  have same : ofWord name = .identifier name := by rw [ofWord, noKeyword]
  exact same ▸ opens_word word breaks

theorem aggregate_spelled (h : isAggregateName name = true) :
    IsWord name ∧ Keyword.ofCapitals? name.toUpper = none ∧ name.toUpper = name := by
  obtain ⟨a, member, same⟩ := List.any_eq_true.mp h
  obtain rfl := eq_of_beq same
  have all : aggregateNames.all (fun a => decide (IsWord (utf8 a)) &&
      (Keyword.ofCapitals? (utf8 a).toUpper).isNone && ((utf8 a).toUpper == utf8 a)) = true := by
    decide
  have checked := List.all_eq_true.mp all a member
  simp only [Bool.and_eq_true, decide_eq_true_eq, Option.isNone_iff_eq_none, beq_iff_eq] at checked
  exact ⟨checked.1.1, checked.1.2, checked.2⟩

theorem head_word (h : IsWord name) (s : Text) :
    ∃ b more, name ++ s = b :: more ∧ b ≠ Byte.equals := by
  obtain ⟨start, _⟩ := h
  cases name with
  | nil => cases start
  | cons b more =>
      refine ⟨b, _, rfl, ?_⟩
      rintro rfl
      cases start

end Words

section Arguments
variable {ns : Namespaces} {indent n : Nat} {args : List Expression} {rest : Text}

theorem fares_callArguments (h : ∀ e ∈ args, ReadsExpression ns indent e) :
    Fares (callArguments (Level.ofAllowance ns n))
      ((Expression.writeList ns indent args).text ++ [Byte.rparen]) (∀ e ∈ args, e.Fits n)
      (args.map (Expression.rewrite reread)) rest := by
  refine fares_closedList (readsListItems_expression h n _) (Nat.le_refl _)
    ((fares_mark _ (opens_rparen rest)).bind_pure rfl) ?_
  exact fun xs c relation => fails_bind (mark_fails _ relation rfl)

/-- What a list of arguments opens with. -/
theorem first_arguments (h : ∀ e ∈ args, ReadsExpression ns indent e) :
    startsExpression ((Expression.writeList ns indent args).text ++ [Byte.rparen] ++ rest).first =
        true ∨
      ((Expression.writeList ns indent args).text ++ [Byte.rparen] ++ rest).first =
        .symbol .rparen := by
  cases args with
  | nil =>
      rw [Expression.writeList, Passage.text_empty]
      exact .inr (Text.first_of_opens (opens_rparen rest))
  | cons e es =>
      rw [Expression.writeList, Passage.text_append, List.append_assoc, List.append_assoc]
      refine .inl ((h e List.mem_cons_self).opening.first _ ?_)
      rw [text_writeMore]
      cases es with
      | nil => exact stopsAt_cons (by decide)
      | cons e es => exact stopsAt_cons (by decide)

theorem startsExpression_other {l : Lexeme} (h : startsExpression l = true) :
    l.keyword? ≠ some .DISTINCT ∧ l ≠ .symbol .star := by
  cases l with
  | symbol m =>
      refine ⟨nofun, ?_⟩
      rintro ⟨⟩
      cases h
  | keyword k spelled =>
      refine ⟨?_, nofun⟩
      rintro ⟨⟩
      cases h
  | _ => exact ⟨nofun, nofun⟩

theorem noDistinct_arguments (h : ∀ e ∈ args, ReadsExpression ns indent e) :
    ((Expression.writeList ns indent args).text ++ [Byte.rparen] ++ rest).first.keyword? ≠
      some .DISTINCT := by
  rcases first_arguments h with starts | same
  · exact (startsExpression_other starts).1
  · rw [same]
    nofun

/-- The word that may stand in front of the arguments. -/
theorem fares_distinct {β : Type} {f : Bool → Parser β} {t : Text} {g : Prop} {y : β}
    (distinct : Bool) (nonempty : t ≠ []) (other : (t ++ rest).first.keyword? ≠ some .DISTINCT)
    (hf : Fares (f distinct) t g y rest) :
    Fares (tryKeyword .DISTINCT >>= f) (utf8 (if distinct then "DISTINCT " else "") ++ t) g y
      rest := by
  cases distinct with
  | false => exact Reads.noKeyword other hf
  | true =>
      have shape : utf8 (if true = true then "DISTINCT " else "") ++ t =
          utf8 "DISTINCT" ++ Byte.space :: t := by
        rw [if_pos rfl]
        rfl
      rw [shape]
      exact Fares.then
        (fares_tryKeyword (opens_keyword .DISTINCT (stopsAt_cons (by decide))) rfl)
        (hf.space (by decide) nonempty)

end Arguments

section Calls
variable {ns : Namespaces} {indent n : Nat} {name rest t : Text} {g : Prop} {x : Expression}
  {args : List Expression} {span : Span}

theorem startsAlone_name (word : IsWord name)
    (noKeyword : Keyword.ofCapitals? name.toUpper = none) (t rest : Text) :
    startsAlone (name ++ Text.bracketed t ++ rest).first
      (name ++ Text.bracketed t ++ rest).second = true := by
  rw [List.append_assoc]
  have opens : Opens (name ++ (Text.bracketed t ++ rest)) (.identifier name)
      (Text.bracketed t ++ rest) := opens_name word noKeyword (stopsAt_cons (by decide))
  rw [Text.first_of_opens opens, Text.second_of_opens opens]
  exact beq_iff_eq.mpr (Text.first_of_opens (opens_lparen _))

/-- A name and the bracket behind it. -/
theorem fares_namedCall (word : IsWord name) (noKeyword : Keyword.ofCapitals? name.toUpper = none)
    (hf : Fares (if isAggregateName name.toUpper then
        aggregateCall (Level.ofAllowance ns n) name.toUpper 0
      else builtinCall (Level.ofAllowance ns n) name.toUpper 0) (Text.bracketed t) g x rest) :
    Fares (primaryExpression (Level.ofAllowance ns n)) (name ++ Text.bracketed t) g x rest := by
  have opens : Opens (name ++ (Text.bracketed t ++ rest)) (.identifier name)
      (Text.bracketed t ++ rest) := opens_name word noKeyword (stopsAt_cons (by decide))
  have first : (name ++ Text.bracketed t ++ rest).first = .identifier name := by
    rw [List.append_assoc]
    exact Text.first_of_opens opens
  have second : (name ++ Text.bracketed t ++ rest).second = .symbol .lparen := by
    rw [List.append_assoc, Text.second_of_opens opens]
    exact Text.first_of_opens (opens_lparen _)
  refine Reads.position (Reads.lexeme first (Reads.position (Reads.followingLexeme second ?_)))
  exact Fares.then (fares_skip opens) hf

theorem readsExpression_builtin (h : IsFunctionName name)
    (hargs : ∀ e ∈ args, ReadsExpression ns indent e) :
    ReadsExpression ns indent (.call (.builtin name) false args span) := by
  obtain ⟨word, capital, noKeyword, noAggregate⟩ := h
  have noKeyword' : Keyword.ofCapitals? name.toUpper = none := by rw [capital, noKeyword]
  have written : ((Expression.call (.builtin name) false args span).write ns indent).text =
      name ++ Text.bracketed (Expression.writeList ns indent args).text := by
    simp [Expression.write, Callee.write, utf8]
  refine readsExpression_alone rfl (Nat.le_add_left 1 _) ?_ fun n rest => ⟨?_, ?_⟩
  · rw [written]
    exact head_word word _
  · rw [written]
    exact startsAlone_name word noKeyword' _ rest
  · rw [written]
    refine fares_namedCall word noKeyword' ?_
    rw [capital, noAggregate]
    refine Fares.then (s := [Byte.lparen]) (fares_mark _ (opens_lparen _)) ?_
    refine ((fares_callArguments hargs).bind_pure ?_).congr Expression.fits_call.symm
    rw [bind_eq_of_ok (position_before rest), Expression.rewrite, Expression.rewriteAll_eq_map]
    rfl

/-- The IRI in front of a bracket. -/
theorem opens_iriCall (hns : ns.Labelled) {iri : Text} (absolute : Iri.hasScheme iri = true)
    (clean : IsCleanIri iri) (t rest : Text) :
    ∃ l, (ns.writeIri iri ++ Text.bracketed t ++ rest).first = l ∧ SpellsIri ns l iri ∧
      (ns.writeIri iri ++ Text.bracketed t ++ rest).second = .symbol .lparen := by
  obtain ⟨l, opens, spells⟩ : ∃ l, Opens (ns.writeIri iri ++ (Text.bracketed t ++ rest)) l
      (Text.bracketed t ++ rest) ∧ SpellsIri ns l iri :=
    opens_writeIri hns absolute clean (stopsAt_cons (by decide))
  rw [List.append_assoc]
  refine ⟨l, Text.first_of_opens opens, spells, ?_⟩
  rw [Text.second_of_opens opens]
  exact Text.first_of_opens (opens_lparen _)

/-- A call of the function that an IRI names. -/
theorem readsExpression_iriCall (hns : ns.Labelled) {iri : Text} {functionSpan : Span}
    (absolute : Iri.hasScheme iri = true) (clean : IsCleanIri iri) (distinct : Bool)
    (hargs : ∀ e ∈ args, ReadsExpression ns indent e) :
    ReadsExpression ns indent (.call (.iri ⟨.iri iri, functionSpan⟩) distinct args span) := by
  have written : ((Expression.call (.iri ⟨.iri iri, functionSpan⟩) distinct args span).write ns
      indent).text = ns.writeIri iri ++ Text.bracketed
        (utf8 (if distinct then "DISTINCT " else "") ++
          (Expression.writeList ns indent args).text) := by
    simp [Expression.write, Callee.write, Term.write]
  have opens := opens_iriCall hns absolute clean
    (utf8 (if distinct then "DISTINCT " else "") ++ (Expression.writeList ns indent args).text)
  refine readsExpression_alone rfl (Nat.le_add_left 1 _) ?_ fun n rest => ⟨?_, ?_⟩
  · rw [written]
    obtain ⟨b, more, same, head⟩ := Namespaces.head_writeIri hns iri
    rw [same]
    refine ⟨b, _, rfl, ?_⟩
    rintro rfl
    cases Byte.marksPath_eq_false head
  · obtain ⟨l, first, spells, second⟩ := opens rest
    rw [written, first, second]
    cases spells <;> rfl
  · obtain ⟨l, first, spells, _⟩ := opens rest
    have shape : Text.bracketed (utf8 (if distinct then "DISTINCT " else "") ++
        (Expression.writeList ns indent args).text) =
        [Byte.lparen] ++ (utf8 (if distinct then "DISTINCT " else "") ++
          ((Expression.writeList ns indent args).text ++ [Byte.rparen])) := by
      simp [Text.bracketed]
    have value : (Expression.call (.iri ⟨.iri iri, functionSpan⟩) distinct args span).rewrite reread =
        .call (.iri ⟨.iri iri, {}⟩) distinct (args.map (Expression.rewrite reread)) {} := by
      rw [Expression.rewrite, Expression.rewriteAll_eq_map]
      rfl
    have read : Fares (iriExpression (Level.ofAllowance ns n)) (ns.writeIri iri ++ Text.bracketed
        (utf8 (if distinct then "DISTINCT " else "") ++ (Expression.writeList ns indent args).text))
        (∀ e ∈ args, e.Fits n)
        (.call (.iri ⟨.iri iri, {}⟩) distinct (args.map (Expression.rewrite reread)) {}) rest := by
      refine Reads.position ?_
      rw [namespaces_ofAllowance, shape]
      refine Fares.then (fares_iriTerm_writeIri hns absolute clean (stopsAt_cons (by decide))) ?_
      refine Fares.then (s := [Byte.lparen]) (fares_tryMark (opens_lparen _)) ?_
      have nonempty : (Expression.writeList ns indent args).text ++ [Byte.rparen] ≠ [] :=
        List.append_ne_nil_of_right_ne_nil _ (List.cons_ne_nil _ _)
      refine fares_distinct distinct nonempty (noDistinct_arguments hargs) ?_
      exact (fares_callArguments hargs).bind_pure (bind_eq_of_ok (position_before rest))
    rw [written, value]
    refine Reads.position (Reads.lexeme first ?_)
    cases spells with
    | reference => exact read.congr Expression.fits_call.symm
    | name => exact read.congr Expression.fits_call.symm

end Calls

section Aggregates
variable {ns : Namespaces} {indent n : Nat} {name rest : Text} {args : List Expression} {span : Span}

/-- The separator of a concatenation, or none. -/
theorem fares_separator {separator : Option Text}
    (h : separator.isSome = true → name = utf8 "GROUP_CONCAT") :
    Fares (separator? name) (separatorText separator) True separator (Byte.rparen :: rest) := by
  cases separator with
  | none =>
      refine reads_nothing ?_
      have here : isAt .semicolon (before (Byte.rparen :: rest)) =
          .ok (false, before (Byte.rparen :: rest)) := by
        show Except.ok (Text.first (Byte.rparen :: rest) == .symbol .semicolon, _) = _
        rw [Text.first_of_opens (opens_rparen rest)]
        rfl
      rw [separator?, bind_eq_of_ok here, Bool.and_false]
      rfl
  | some value =>
      obtain rfl := h rfl
      have shape : separatorText (some value) = [Byte.semicolon] ++ (Byte.space :: utf8 "SEPARATOR" ++
          ([Byte.equals] ++ quoted value)) := by
        have words : utf8 "; SEPARATOR=" =
            [Byte.semicolon] ++ (Byte.space :: utf8 "SEPARATOR" ++ [Byte.equals]) := by decide
        rw [separatorText, words]
        simp
      have semicolon : ∀ t, Opens ([Byte.semicolon] ++ t) (.symbol .semicolon) t :=
        opens_byte (b := Byte.semicolon) (s := .semicolon) (by decide)
      have equal : ∀ t, Opens ([Byte.equals] ++ t) (.symbol .equal) t :=
        opens_byte (b := Byte.equals) (s := .equal) (by decide)
      have word : ∀ t, Opens (Byte.space :: utf8 "SEPARATOR" ++ ([Byte.equals] ++ t))
          (.identifier (utf8 "SEPARATOR")) ([Byte.equals] ++ t) := fun t =>
        (opens_name (by decide) (by decide) (stopsAt_cons (by decide))).space (by decide)
      have string : Opens (quoted value ++ Byte.rparen :: rest) (.string value false)
          (Byte.rparen :: rest) := opens_quoted (stopsAt_cons (by decide))
      rw [shape]
      refine Reads.isAt (b := true) ?_ ?_
      · rw [List.append_assoc, Text.first_of_opens (semicolon _)]
        rfl
      refine Fares.then (s := [Byte.semicolon]) (x := ()) (fares_skip (semicolon _)) ?_
      refine Reads.lexeme (l := .identifier (utf8 "SEPARATOR")) ?_ ?_
      · rw [List.append_assoc, List.append_assoc]
        exact Text.first_of_opens (word _)
      refine Fares.then (s := Byte.space :: utf8 "SEPARATOR") (x := ()) (fares_skip (word _)) ?_
      refine Fares.then (s := [Byte.equals]) (x := ()) (fares_mark _ (equal _)) ?_
      exact Reads.lexeme (Text.first_of_opens string) ((fares_skip string).bind_pure rfl)

/-- What the separator of an aggregate leaves behind an expression that cannot go on. -/
theorem fails_separator {name : Text} {c : Cursor} (e : Expectation) {β : Type}
    {f : Option Text → Unit → Parser β} (relation : AtRelation c) :
    Fails ((separator? name >>= fun separator => mark .rparen e >>= f separator) c) := by
  have here : isAt .semicolon c = .ok (false, c) := by
    rw [isAt]
    congr 2
    rw [beq_eq_false_iff_ne]
    intro same
    rw [AtRelation, same] at relation
    cases relation
  have noSeparator : separator? name c = .ok (none, c) := by
    rw [separator?, bind_eq_of_ok here, Bool.and_false]
    rfl
  rw [bind_eq_of_ok noSeparator]
  exact fails_bind (mark_fails e relation rfl)

/-- What follows the argument of an aggregate. -/
theorem endsExpression_separator (separator : Option Text) (rest : Text) :
    EndsExpression 1 (separatorText separator ++ Byte.rparen :: rest) := by
  cases separator with
  | none => exact endsExpression_rparen rest
  | some value =>
      have opens : Opens (separatorText (some value) ++ Byte.rparen :: rest) (.symbol .semicolon) _ :=
        opens_byte (by decide) _
      exact endsExpression_of_opens opens (stopsAt_cons (by decide)) rfl nofun (by decide)

def aggregateText (ns : Namespaces) (indent : Nat) (star : Bool) (args : List Expression) : Text :=
  if star then [Byte.star] else (Expression.writeList ns indent args).text

theorem strays_aggregateArgument {star : Bool} (h : ∀ e ∈ args, ReadsExpression ns indent e)
    (shape : if star then name = utf8 "COUNT" ∧ args = [] else args.length = 1)
    (ends : EndsExpression 1 rest) :
    Strays (aggregateArgument (Level.ofAllowance ns n) name) (aggregateText ns indent star args)
      (∀ e ∈ args, e.Fits n) (star, args.map (Expression.rewrite reread)) rest := by
  cases star with
  | true =>
      obtain ⟨rfl, rfl⟩ : name = utf8 "COUNT" ∧ args = [] := shape
      have opens : Opens ([Byte.star] ++ rest) (.symbol .star) rest := opens_byte (by decide) rest
      refine Reads.isAt (b := true) (by rw [aggregateText, if_pos rfl, Text.first_of_opens opens]; rfl)
        ?_
      exact Fares.strays (((fares_skip opens).bind_pure rfl).congr (iff_of_true trivial nofun))
  | false =>
      obtain ⟨e, rfl⟩ := List.length_eq_one_iff.mp shape
      obtain ⟨opening, tiers, _⟩ := h e List.mem_cons_self
      have written : aggregateText ns indent false [e] = (e.write ns indent).text := by
        simp [aggregateText, Expression.writeList, Expression.writeMore]
      have noStar := (startsExpression_other (opening.first rest ends.parts)).2
      rw [written]
      refine Reads.isAt (b := false) (beq_eq_false_iff_ne.mpr noStar) ?_
      rw [Bool.and_false]
      exact ((tiers.expression n ends).steady (fun x c => ⟨_, rfl⟩) rfl).congr (by simp)

theorem first_aggregateText {star : Bool} {separator : Option Text}
    (h : ∀ e ∈ args, ReadsExpression ns indent e)
    (shape : if star then name = utf8 "COUNT" ∧ args = [] else args.length = 1) :
    (aggregateText ns indent star args ++ (separatorText separator ++ [Byte.rparen]) ++
      rest).first.keyword? ≠ some .DISTINCT := by
  cases star with
  | true =>
      have opens : ∀ t, Opens ([Byte.star] ++ t) (.symbol .star) t :=
        opens_byte (b := Byte.star) (s := .star) (by decide)
      rw [aggregateText, if_pos rfl, List.append_assoc, Text.first_of_opens (opens _)]
      nofun
  | false =>
      obtain ⟨e, rfl⟩ := List.length_eq_one_iff.mp shape
      have written : aggregateText ns indent false [e] = (e.write ns indent).text := by
        simp [aggregateText, Expression.writeList, Expression.writeMore]
      have parts := (endsExpression_separator separator rest).parts
      rw [written, List.append_assoc, List.append_assoc]
      exact (startsExpression_other ((h e List.mem_cons_self).opening.first _ parts)).1

/-- An aggregate of an expression, or a count of everything. -/
theorem readsExpression_aggregate (isName : isAggregateName name = true) {distinct star : Bool}
    {separator : Option Text}
    (shape : if star then name = utf8 "COUNT" ∧ args = [] else args.length = 1)
    (separated : separator.isSome = true → name = utf8 "GROUP_CONCAT")
    (h : ∀ e ∈ args, ReadsExpression ns indent e) :
    ReadsExpression ns indent (.aggregate name distinct star args separator span) := by
  obtain ⟨word, noKeyword, capital⟩ := aggregate_spelled isName
  have written : ((Expression.aggregate name distinct star args separator span).write ns
      indent).text = name ++ Text.bracketed (utf8 (if distinct then "DISTINCT " else "") ++
        aggregateText ns indent star args ++ separatorText separator) := by
    cases star <;> simp [Expression.write, aggregateText]
  have shape' : Text.bracketed (utf8 (if distinct then "DISTINCT " else "") ++
      aggregateText ns indent star args ++ separatorText separator) =
      [Byte.lparen] ++ (utf8 (if distinct then "DISTINCT " else "") ++
        (aggregateText ns indent star args ++ (separatorText separator ++ [Byte.rparen]))) := by
    simp [Text.bracketed]
  refine readsExpression_alone rfl (Nat.le_add_left 1 _) ?_ fun n rest => ⟨?_, ?_⟩
  · rw [written]
    exact head_word word _
  · rw [written]
    exact startsAlone_name word noKeyword _ rest
  · rw [written]
    refine fares_namedCall word noKeyword ?_
    have value : (Expression.aggregate name distinct star args separator span).rewrite reread =
        .aggregate name distinct star (args.map (Expression.rewrite reread)) separator {} := by
      rw [Expression.rewrite, Expression.rewriteAll_eq_map]
      rfl
    rw [capital, isName, shape', value, if_pos rfl]
    refine Fares.then (s := [Byte.lparen]) (fares_mark _ (opens_lparen _)) ?_
    refine fares_distinct distinct (by simp) (first_aggregateText h shape) ?_
    have ends := endsExpression_separator separator rest
    rw [show Byte.rparen :: rest = [Byte.rparen] ++ rest from rfl, ← List.append_assoc] at ends
    have close : Fares (do
        let separator ← separator? name
        mark .rparen .closeAggregate
        pure (Expression.aggregate name distinct star (args.map (Expression.rewrite reread)) separator
          ⟨0, ← position⟩)) (separatorText separator ++ [Byte.rparen]) True
        (.aggregate name distinct star (args.map (Expression.rewrite reread)) separator {}) rest :=
      Fares.then (fares_separator separated) ((fares_mark _ (opens_rparen rest)).bind_pure
        (bind_eq_of_ok (position_before rest)))
    refine (Strays.close (strays_aggregateArgument h shape ends) close
      fun _ _ => fails_separator _).congr ?_
    rw [and_iff_left trivial]
    exact Expression.fits_aggregate.symm

end Aggregates

end Grammar

end SparqlMetrics
