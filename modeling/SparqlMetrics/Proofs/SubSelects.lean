import SparqlMetrics.Proofs.Grammar.BracedQueries
import SparqlMetrics.Proofs.Grammar.NestsQueries
import SparqlMetrics.Proofs.Grammar.Truncation
import SparqlMetrics.Proofs.Prologue
import SparqlMetrics.Proofs.Reading.Groups
import SparqlMetrics.Proofs.Scope
import SparqlMetrics.Proofs.Token.Joined
import SparqlMetrics.Proofs.Tree.Spanless

/-!
# A selection as a nested one

A selection without a prologue and a dataset that is read as a whole text can be put between the
braces of another selection. There it is read again, as the only element of the group, unless it
nests too deeply already. The two readers differ in one thing: the columns of the table behind a
nested selection of everything count among its result variables, those of the outermost one do not.
Main statement: `QueryUnit.parse_nested`.
-/
namespace SparqlMetrics

/-- A query as a nested selection: the columns of its table count among its result variables. -/
def Query.nested (q : Query) : Query :=
  { q with resultVariables := q.form.resultVariables q.root q.values }

/-- A text between the braces of a selection of everything. -/
def Text.nested (s : Text) : Text := utf8 "SELECT * WHERE \x7b\n" ++ (s ++ utf8 "\n\x7d")

namespace Grammar

open SparqlMetrics.Parser TwoRuns

variable {ns : Namespaces} {level : Level} {c c' d d' : Cursor} {unit : QueryUnit} {q : Query}

/-! ## The clauses of a whole selection -/

theorem datasetClause?_eq_none (read : datasetClause? ns c = .ok (none, c')) : c' = c := by
  obtain ⟨found, c₁, first, rest⟩ := bind_eq_ok.mp read
  obtain ⟨rfl, _, _⟩ | ⟨rfl, rfl⟩ := tryKeyword_eq_ok first
  · simp only [if_true] at rest
    obtain ⟨named, c₂, _, rest⟩ := bind_eq_ok.mp rest
    obtain ⟨iri, c₃, _, rest⟩ := bind_eq_ok.mp rest
    obtain ⟨_, c₄, _, rest⟩ := bind_eq_ok.mp rest
    cases rest
  · exact (Prod.mk.inj (Except.ok.inj rest)).2.symm

/-- Where no graph is named, nothing is passed over. -/
theorem datasetClauses_eq_nil (read : datasetClauses ns c = .ok ([], c')) : c' = c := by
  obtain ⟨found, c₁, first, rest⟩ := bind_eq_ok.mp
    (show manyUpTo (datasetClause? ns) (c.ahead.length + 1) c = _ from read)
  cases found with
  | none =>
      rw [← datasetClause?_eq_none first]
      exact (Prod.mk.inj (Except.ok.inj rest)).2.symm
  | some clause =>
      obtain ⟨more, c₂, _, rest⟩ := bind_eq_ok.mp rest
      cases rest

theorem body_of_select (select : c.token.lexeme.keyword? = some .SELECT) :
    body level c = selectBody level c := by
  have look : lexeme c = .ok (c.token.lexeme, c) := rfl
  rw [body, bind_eq_of_ok look]
  simp only [select]

theorem endOfText_eq_ok {x : Unit} (read : endOfText c = .ok (x, c')) :
    c' = c ∧ c.token.lexeme = .endOfInput := by
  have look : lexeme c = .ok (c.token.lexeme, c) := rfl
  rw [endOfText, bind_eq_of_ok look] at read
  cases here : c.token.lexeme with
  | endOfInput =>
      rw [here] at read
      exact ⟨(Prod.mk.inj (Except.ok.inj read)).2.symm, rfl⟩
  | _ =>
      rw [here] at read
      cases read

theorem isSelection_of_selectClause {form : Form} (read : selectClause level c = .ok (form, c')) :
    IsSelection form := by
  obtain ⟨_, c₁, _, rest⟩ := bind_eq_ok.mp read
  obtain ⟨modifier, c₂, _, rest⟩ := bind_eq_ok.mp rest
  obtain ⟨star, c₃, _, rest⟩ := bind_eq_ok.mp rest
  cases star with
  | true => exact ⟨modifier, true, [], (Prod.mk.inj (Except.ok.inj rest)).1.symm⟩
  | false =>
      obtain ⟨items, c₄, _, rest⟩ := bind_eq_ok.mp rest
      cases items with
      | nil => cases rest
      | cons item items =>
          exact ⟨modifier, false, item :: items, (Prod.mk.inj (Except.ok.inj rest)).1.symm⟩

/-- A selection without a dataset that makes up a whole query is read as a nested one as well. -/
theorem subSelect_of_queryBehind (select : c.token.lexeme.keyword? = some .SELECT)
    (read : queryBehind ns c = .ok (unit, c')) (noDataset : unit.query.dataset = []) :
    c'.token.lexeme = .endOfInput ∧ IsSelection unit.query.form ∧
      unit.query.resultVariables = unit.query.form.resultVariables unit.query.root none ∧
      ∃ span, subSelect (.outermost ns) c = .ok ({ unit.query.nested with span := span }, c') := by
  obtain ⟨b, c₁, bodyRead, rest⟩ := bind_eq_ok.mp read
  obtain ⟨m, c₂, modifiersRead, rest⟩ := bind_eq_ok.mp rest
  obtain ⟨values, c₃, valuesRead, rest⟩ := bind_eq_ok.mp rest
  obtain ⟨_, c₄, endRead, rest⟩ := bind_eq_ok.mp rest
  obtain ⟨stop, c₅, look, done⟩ := bind_eq_ok.mp rest
  obtain ⟨rfl, rfl⟩ := Prod.mk.inj (Except.ok.inj done)
  obtain ⟨rfl, rfl⟩ := Prod.mk.inj (Except.ok.inj look)
  obtain ⟨rfl, ended⟩ := endOfText_eq_ok endRead
  rw [body_of_select select] at bodyRead
  obtain ⟨form, d₁, formRead, bodyRead⟩ := bind_eq_ok.mp bodyRead
  obtain ⟨dataset, d₂, datasetRead, bodyRead⟩ := bind_eq_ok.mp bodyRead
  obtain ⟨root, d₃, rootRead, done⟩ := bind_eq_ok.mp bodyRead
  obtain ⟨rfl, rfl⟩ := Prod.mk.inj (Except.ok.inj done)
  obtain rfl : dataset = [] := noDataset
  obtain rfl := datasetClauses_eq_nil datasetRead
  refine ⟨ended, isSelection_of_selectClause formRead, rfl, ⟨c.token.start, c₄.token.start⟩, ?_⟩
  have start : position c = .ok (c.token.start, c) := rfl
  rw [subSelect, bind_eq_of_ok start, bind_eq_of_ok formRead, bind_eq_of_ok rootRead,
    bind_eq_of_ok modifiersRead]
  exact bind_eq_of_ok valuesRead

/-! ## Between braces -/

/-- A keyword stands in front of the end, also where a brace is put there. -/
theorem token_braced (last : c.last.lexeme = .endOfInput) {k : Keyword}
    (here : c.token.lexeme.keyword? = some k) : c.braced.token = c.token := by
  obtain ⟨ahead, stop, count⟩ := c
  cases ahead with
  | nil =>
      have same : stop.lexeme = .endOfInput := last
      rw [Cursor.token, List.headD_nil, same] at here
      cases here
  | cons t more => rfl

/-- A nested selection that ends with its text is read in front of a closing brace, and the brace is
what is left. -/
theorem subSelect_braced {s : Text} {n : Nat} (place : c.At s)
    (select : c.token.lexeme.keyword? = some .SELECT)
    (read : subSelect (Level.ofAllowance ns n) c = .ok (q, c'))
    (ended : c'.token.lexeme = .endOfInput) :
    c.last.lexeme = .endOfInput ∧ c'.ahead = [] ∧
      subSelect (Level.ofAllowance ns n) c.braced = .ok (q, c'.braced) := by
  have nests := nests_subSelect (nests_ofAllowance ns n)
  obtain ⟨w, reaches, balanced⟩ : ∃ w, c.Reaches w c' ∧ Token.Balanced w := by
    have leaves := nests c place.isTerminal select
    rwa [read] at leaves
  have noTokens : c'.ahead = [] := by
    cases rest : c'.ahead with
    | nil => rfl
    | cons t more =>
        have member : t ∈ c.ahead := by
          rw [reaches.ahead, rest]
          exact List.mem_append_right _ List.mem_cons_self
        have full := (place.spelled.1 t member).2
        rw [Cursor.token, rest, List.headD_cons] at ended
        rw [ended] at full
        cases full
  have last : c.last.lexeme = .endOfInput := by
    rwa [Cursor.token, noTokens, List.headD_nil, reaches.last] at ended
  obtain ⟨c₁, read', place', _⟩ := inBraces_subSelect (inBraces_ofAllowance ns n) c.braced c
    ⟨last, .inl rfl⟩ trivial q c' read
  refine ⟨last, noTokens, ?_⟩
  rcases place'.place with rfl | ⟨rfl, _⟩
  · exact read'
  · -- the braces of the tokens would pair up with the closing brace and without it
    have full : c.braced.token = c.token := token_braced last select
    obtain ⟨w', reaches', balanced'⟩ : ∃ w, c.braced.Reaches w c₁ ∧ Token.Balanced w := by
      have leaves := nests c.braced place.isTerminal (show _ = _ by rw [full]; exact select)
      rwa [read'] at leaves
    have whole : w ++ [⟨.symbol .rbrace, c.last.start, c.last.stop⟩] = w' := by
      have ahead := reaches'.ahead
      rw [Cursor.braced, reaches.ahead, noTokens, List.append_nil, List.append_nil] at ahead
      exact ahead
    have unpaired := balanced' [0]
    rw [← whole, List.foldl_append, balanced [0]] at unpaired
    cases unpaired

theorem mark_eq {s : Symbol} {e : Expectation} (here : c.token.lexeme = .symbol s) :
    mark s e c = .ok ((), c.advance) := by
  rw [mark, bind_eq_of_ok (lexeme_at here), if_pos (beq_self_eq_true _)]
  rfl

theorem isAtKeyword_eq {k : Keyword} (here : c.token.lexeme.keyword? = some k) :
    isAtKeyword k c = .ok (true, c) := by
  rw [isAtKeyword, here, beq_self_eq_true]

theorem position_eq : position c = .ok (c.token.start, c) := rfl

/-- A group that is a nested selection. -/
theorem bracedGroup_of_subSelect (kind : GroupKind) (opens : d.token.lexeme = .symbol .lbrace)
    (select : d.advance.token.lexeme.keyword? = some .SELECT)
    (read : subSelect level d.advance = .ok (q, d'))
    (closes : d'.token.lexeme = .symbol .rbrace) :
    ∃ span span', bracedGroup level kind d =
      .ok (⟨kind, [.subquery (some q) span], [], none, span'⟩, d'.advance) := by
  have content : groupContent level d.advance =
      .ok ({ elements := [.subquery (some q) ⟨d.advance.token.start, d'.token.start⟩] }, d') := by
    rw [groupContent, bind_eq_of_ok (isAtKeyword_eq select), if_pos rfl,
      bind_eq_of_ok position_eq, bind_eq_of_ok read]
    rfl
  refine ⟨⟨d.advance.token.start, d'.token.start⟩, ⟨d.token.start, d'.advance.token.start⟩, ?_⟩
  rw [bracedGroup, bind_eq_of_ok position_eq, bind_eq_of_ok (mark_eq opens), bind_eq_of_ok content,
    bind_eq_of_ok (mark_eq closes)]
  rfl

theorem bracedGroup_of_error (kind : GroupKind) {e : ParseError}
    (opens : d.token.lexeme = .symbol .lbrace)
    (select : d.advance.token.lexeme.keyword? = some .SELECT)
    (failed : subSelect level d.advance = .error e) : bracedGroup level kind d = .error e := by
  have content : groupContent level d.advance = .error e := by
    rw [groupContent, bind_eq_of_ok (isAtKeyword_eq select), if_pos rfl,
      bind_eq_of_ok position_eq, bind_eq_of_error failed]
  rw [bracedGroup, bind_eq_of_ok position_eq, bind_eq_of_ok (mark_eq opens),
    bind_eq_of_error content]

/-! ## The selection around it -/

/-- Whether a cursor stands at a selection of everything in front of a group. -/
structure AtEverything (d : Cursor) : Prop where
  select : d.token.lexeme.keyword? = some .SELECT
  star : d.advance.token.lexeme = .symbol .star
  scope : d.advance.advance.token.lexeme.keyword? = some .WHERE
  opens : d.advance.advance.advance.token.lexeme = .symbol .lbrace

/-- The cursor at the group of a selection of everything. -/
def groupOf (d : Cursor) : Cursor := d.advance.advance.advance

theorem body_of_everything (h : AtEverything d) : body level d =
    (level.group .group >>= fun root => pure ⟨.select .none true [], [], root⟩) (groupOf d) := by
  have noKeyword : ∀ k, d.advance.token.lexeme.keyword? ≠ some k := by
    rw [h.star]
    nofun
  have modifier : selectModifier d.advance = .ok (.none, d.advance) := by
    rw [selectModifier, bind_eq_of_ok (tryKeyword_eq_false (noKeyword _))]
    exact bind_eq_of_ok (tryKeyword_eq_false (noKeyword _))
  have everything : tryMark .star d.advance = .ok (true, d.advance.advance) := by
    have found : isAt .star d.advance = .ok (true, d.advance) := by
      rw [isAt, h.star, beq_self_eq_true]
    exact bind_eq_of_ok found
  have form : selectClause level d = .ok (.select .none true [], d.advance.advance) := by
    rw [selectClause, bind_eq_of_ok (show skip d = .ok ((), d.advance) from rfl),
      bind_eq_of_ok modifier, bind_eq_of_ok everything]
    rfl
  have dataset : datasetClauses level.namespaces d.advance.advance =
      .ok ([], d.advance.advance) := by
    refine manyUpTo_idle ?_ _
    exact bind_eq_of_ok (tryKeyword_eq_false (by rw [h.scope]; decide))
  have scope : whereClause level d.advance.advance = level.group .group (groupOf d) := by
    have found : isAt .lbrace (groupOf d) = .ok (true, groupOf d) := by
      rw [isAt, groupOf, h.opens, beq_self_eq_true]
    rw [whereClause, bind_eq_of_ok (tryKeyword_eq_true h.scope)]
    exact bind_eq_of_ok found
  rw [body_of_select h.select, selectBody, bind_eq_of_ok form, bind_eq_of_ok dataset]
  exact bind_congr_left _ scope

theorem modifiers_ended (ended : c.token.lexeme = .endOfInput) :
    modifiers level c = .ok (⟨[], [], [], {}⟩, c) := by
  have skips : ∀ k, tryKeyword k c = .ok (false, c) :=
    fun k => tryKeyword_eq_false (by rw [ended]; nofun)
  have absent : ∀ k, isAtKeyword k c = .ok (false, c) := fun k => by rw [isAtKeyword, ended]; rfl
  have groups : groupClause level c = .ok ([], c) := bind_eq_of_ok (skips _)
  have conditions : havingClause level c = .ok ([], c) := bind_eq_of_ok (skips _)
  have order : orderClause level c = .ok ([], c) := bind_eq_of_ok (skips _)
  have stays : bound? {} c = .ok (none, c) := by
    rw [bound?, bind_eq_of_ok (absent _)]
    exact bind_eq_of_ok (absent _)
  have bounds : repeatFrom bound? {} c = .ok ({}, c) := repeatUpTo_idle stays (c.ahead.length + 1)
  rw [modifiers, bind_eq_of_ok groups, bind_eq_of_ok conditions, bind_eq_of_ok order,
    bind_eq_of_ok bounds]
  rfl

/-- A selection of everything, with nothing behind its group. -/
theorem queryBehind_of_everything (ns : Namespaces) (h : AtEverything d) {root : Group}
    (read : (Level.outermost ns).group .group (groupOf d) = .ok (root, d'))
    (ended : d'.token.lexeme = .endOfInput) :
    ∃ unit, queryBehind ns d = .ok (unit, d') ∧ unit.query.root = root := by
  have bodyRead : body (Level.outermost ns) d = .ok (⟨.select .none true [], [], root⟩, d') := by
    rw [body_of_everything h, bind_eq_of_ok read]
    rfl
  have noValues : trailingValues ns d' = .ok (none, d') :=
    bind_eq_of_ok (tryKeyword_eq_false (by rw [ended]; nofun))
  have atEnd : endOfText d' = .ok ((), d') := bind_eq_of_ok (lexeme_at ended)
  refine ⟨⟨ns, assemble (.select .none true []) [] root ⟨[], [], [], {}⟩ none none
    ⟨0, d'.token.start⟩⟩, ?_, rfl⟩
  rw [queryBehind, bind_eq_of_ok bodyRead, bind_eq_of_ok (modifiers_ended ended),
    bind_eq_of_ok noValues, bind_eq_of_ok atEnd]
  rfl

theorem queryBehind_of_error (ns : Namespaces) (h : AtEverything d) {e : ParseError}
    (failed : (Level.outermost ns).group .group (groupOf d) = .error e) :
    queryBehind ns d = .error e := by
  have bodyFails : body (Level.outermost ns) d = .error e := by
    rw [body_of_everything h, bind_eq_of_error failed]
  rw [queryBehind, bind_eq_of_error bodyFails]

end Grammar

/-! ## Texts -/

open Lexeme

namespace Text

variable {s : Text}

theorem nested_eq (s : Text) : s.nested = utf8 "SELECT" ++ Byte.space :: Byte.star :: Byte.space ::
    (utf8 "WHERE" ++ Byte.space :: Byte.lbrace :: Byte.newline :: (s ++ utf8 "\n\x7d")) := by
  have front : utf8 "SELECT * WHERE \x7b\n" =
      utf8 "SELECT" ++ Byte.space :: Byte.star :: Byte.space ::
        (utf8 "WHERE" ++ [Byte.space, Byte.lbrace, Byte.newline]) := by decide
  rw [nested, front]
  simp

/-- The lexemes of a text that is read to its end, and a closing brace on a line of its own. -/
theorem lexemes_closed (ended : (TokenStream.ofText s).lexemes.2 = .endOfInput) :
    (TokenStream.ofText (s ++ utf8 "\n\x7d")).lexemes =
      ((TokenStream.ofText s).lexemes.1 ++ [.symbol .rbrace], .endOfInput) := by
  have brace : (TokenStream.ofText [Byte.rbrace]).lexemes = ([.symbol .rbrace], .endOfInput) :=
    (spells_mark (s := .rbrace) (by decide)).lexemes
  have line := TokenStream.spells_line ended [Byte.rbrace]
  rw [brace, List.append_assoc] at line
  exact line

/-- Names behind others that have them all are not distinct from these. -/
theorem distinct_append_eq {names more : List Text} :
    distinct (names ++ more) = distinct names ↔ ∀ name ∈ more, name ∈ names := by
  constructor
  · intro same name member
    rw [← mem_distinct, ← same, mem_distinct]
    exact List.mem_append_right _ member
  · intro known
    have still : ∀ (seen more : List Text), (∀ name ∈ more, name ∈ seen) →
        more.foldl (fun seen name => if name ∈ seen then seen else seen ++ [name]) seen = seen := by
      intro seen more known
      induction more with
      | nil => rfl
      | cons name more ih =>
          rw [List.foldl_cons, if_pos (known name List.mem_cons_self)]
          exact ih fun other member => known other (List.mem_cons_of_mem _ member)
    rw [distinct, List.foldl_append]
    exact still _ _ fun name member => mem_distinct.mpr (known name member)

end Text

namespace Query

variable {q sub : Query}

/-- Whether the columns of the table of a selection of everything are in scope of its pattern. -/
def ColumnsInScope (q : Query) : Prop :=
  ∀ modifier items, q.form = .select modifier true items →
    ∀ v ∈ columnsOf q.values, q.root.InScope v

/-- The columns of a table add to the names of a selection where it selects everything and its
pattern does not bind them. -/
theorem resultVariables_eq_iff (selection : Grammar.IsSelection q.form) :
    q.form.resultVariables q.root q.values = q.form.resultVariables q.root none ↔
      q.ColumnsInScope := by
  rw [ColumnsInScope]
  obtain ⟨modifier, everything, items, form⟩ := selection
  rw [form]
  cases everything with
  | false => simp [Form.resultVariables]
  | true =>
      have scope : ∀ v, v ∈ q.root.boundVariables ↔ q.root.InScope v :=
        fun v => Group.mem_boundVariables
      simp [Form.resultVariables, columnsOf, Text.distinct_append_eq, scope]

/-- A nested selection differs from the outermost one in its result variables only. -/
theorem rewrite_nested_eq_iff {w : Rewriting} :
    q.nested.rewrite w = q.rewrite w ↔
      q.form.resultVariables q.root q.values = q.resultVariables := by
  obtain ⟨form, names, dataset, root, groupBy, having, orderBy, limit, offset, values, span⟩ := q
  constructor
  · exact congrArg resultVariables
  · intro same
    exact congrArg (fun names => Query.rewrite w
      ⟨form, names, dataset, root, groupBy, having, orderBy, limit, offset, values, span⟩) same

theorem rewrite_span (q : Query) (span : Span) :
    { q with span := span }.rewrite .withoutSpans = q.rewrite .withoutSpans := by
  cases q
  rfl

end Query

namespace Grammar

open SparqlMetrics.Parser TwoRuns Cursor

variable {s : Text} {c d : Cursor}

/-- The cursor at a nested text. -/
theorem atEverything_of_at (place : d.At s.nested) :
    AtEverything d ∧ (groupOf d).advance.At (s ++ utf8 "\n\x7d") := by
  rw [Text.nested_eq] at place
  have select := opens_keyword .SELECT (t := Byte.space :: Byte.star :: Byte.space ::
    (utf8 "WHERE" ++ Byte.space :: Byte.lbrace :: Byte.newline :: (s ++ utf8 "\n\x7d")))
    (stopsAt_cons (by decide))
  have star := opens_byte (b := Byte.star) (s := .star) (by decide) (Byte.space ::
    (utf8 "WHERE" ++ Byte.space :: Byte.lbrace :: Byte.newline :: (s ++ utf8 "\n\x7d")))
  have scope := opens_keyword .WHERE (t := Byte.space :: Byte.lbrace :: Byte.newline ::
    (s ++ utf8 "\n\x7d")) (stopsAt_cons (by decide))
  have brace := opens_byte (b := Byte.lbrace) (s := .lbrace) (by decide)
    (Byte.newline :: (s ++ utf8 "\n\x7d"))
  have atStar := (place.advance select).space (by decide)
  have atScope := (atStar.advance star).space (by decide)
  have atBrace := (atScope.advance scope).space (by decide)
  refine ⟨⟨?_, atStar.token star, ?_, atBrace.token brace⟩,
    (atBrace.advance brace).space (by decide)⟩
  · rw [place.token select]
    rfl
  · rw [atScope.token scope]
    rfl

theorem at_braced (place : c.At s) (ended : c.last.lexeme = .endOfInput) :
    c.braced.At (s ++ utf8 "\n\x7d") := by
  have lexemes := Text.lexemes_closed (place.last.symm.trans ended)
  refine ⟨?_, ?_⟩
  · rw [lexemes, braced, List.map_append, place.ahead]
    rfl
  · rw [lexemes]
    exact ended

end Grammar

namespace QueryUnit

open Grammar TwoRuns Cursor

variable {s : Text} {unit : QueryUnit}

/-- A text that starts with a selection has no prologue. -/
theorem parse_of_select
    (here : (ofStream (TokenStream.ofText s)).token.lexeme.keyword? = some .SELECT) :
    parse s = (queryBehind {} (ofStream (TokenStream.ofText s))).map Prod.fst := by
  have last := (at_ofStream s).isTerminal
  have empty : prologue (ofStream (TokenStream.ofText s)) =
      .ok ({}, ofStream (TokenStream.ofText s)) := by
    refine (repeatFrom_eq_ok last).mpr (.stop (.nothing ?_ ?_)) <;> rw [here] <;> decide
  have whole : queryUnit (ofStream (TokenStream.ofText s)) =
      queryBehind {} (ofStream (TokenStream.ofText s)) := bind_eq_of_ok empty
  rw [parse, whole]
  cases queryBehind {} (ofStream (TokenStream.ofText s)) <;> rfl

theorem queryBehind_of_parse
    (here : (ofStream (TokenStream.ofText s)).token.lexeme.keyword? = some .SELECT)
    (read : parse s = .ok unit) :
    ∃ behind, queryBehind {} (ofStream (TokenStream.ofText s)) = .ok (unit, behind) := by
  rw [parse_of_select here] at read
  cases found : queryBehind {} (ofStream (TokenStream.ofText s)) with
  | error e =>
      rw [found] at read
      cases read
  | ok pair =>
      rw [found] at read
      exact ⟨pair.2, by rw [← Except.ok.inj read]⟩

/-- A selection between the braces of another one is the only element of that one's group, as it was
read alone but for the spans, unless it nests too deeply there. Its result variables are the same if
and only if no column of a table behind a selection of everything is out of the pattern's scope. -/
theorem parse_nested (read : parse s = .ok unit) (select : s.first.keyword? = some .SELECT)
    (noDataset : unit.query.dataset = []) :
    (∃ e, parse s.nested = .error e ∧ e.failure = .malformed .nestingTooDeep) ∨
      ∃ outer sub span span', parse s.nested = .ok outer ∧
        outer.query.root = ⟨.group, [.subquery (some sub) span], [], none, span'⟩ ∧
        sub.rewrite .withoutSpans = unit.query.nested.rewrite .withoutSpans ∧
        (sub.rewrite .withoutSpans = unit.query.rewrite .withoutSpans ↔
          unit.query.ColumnsInScope) := by
  let start := ofStream (TokenStream.ofText s)
  let start' := ofStream (TokenStream.ofText s.nested)
  have place : start.At s := at_ofStream s
  have here : start.token.lexeme.keyword? = some .SELECT := by
    rw [place.same_token (at_before s)]
    exact select
  obtain ⟨c', behind⟩ := queryBehind_of_parse here read
  obtain ⟨ended, selection, names, span, alone⟩ := subSelect_of_queryBehind here behind noDataset
  obtain ⟨last, noTokens, inside⟩ := subSelect_braced place here alone ended
  obtain ⟨everything, place'⟩ := atEverything_of_at (at_ofStream s.nested)
  have aligned : truncated.Aligned (groupOf start').advance start.braced :=
    aligned_of_at place' (at_braced place last) rfl
  have here' : (groupOf start').advance.token.lexeme.keyword? = some .SELECT := by
    rw [token_of_truncated aligned, token_braced last here]
    exact here
  have inner : 255 ≤ maxNesting := by decide
  rcases tracks_subSelect (levelTracks_truncated {} inner) _ _ aligned _ _ inside with
    ⟨sub, d', found, same, aligned'⟩ | ⟨e, failed, tooDeep⟩
  · have closes : d'.token.lexeme = .symbol .rbrace := by
      rw [token_of_truncated aligned', Cursor.token, braced, noTokens]
      rfl
    have ended' : d'.advance.token.lexeme = .endOfInput := by
      rw [Cursor.token, noTokens] at ended
      rw [token_of_truncated aligned'.advance, Cursor.token, Cursor.advance, braced, noTokens]
      exact ended
    obtain ⟨span, span', group⟩ := bracedGroup_of_subSelect .group everything.opens here'
      found closes
    obtain ⟨outer, outside, root⟩ := queryBehind_of_everything {} everything group ended'
    have same' : sub.rewrite .withoutSpans = unit.query.nested.rewrite .withoutSpans :=
      same.trans (Query.rewrite_span _ _)
    refine .inr ⟨outer, sub, span, span', ?_, root, same', ?_⟩
    · rw [parse_of_select everything.select, outside]
      rfl
    · rw [same', Query.rewrite_nested_eq_iff, names, Query.resultVariables_eq_iff selection]
  · have group := bracedGroup_of_error .group everything.opens here' failed
    have outside := queryBehind_of_error {} everything group
    refine .inl ⟨e, ?_, tooDeep⟩
    rw [parse_of_select everything.select, outside]
    rfl

/-- A table behind a selection of everything, with a column that is not in the pattern. -/
def tabled : Text := utf8 "SELECT * WHERE \x7b ?s ?p ?o \x7d VALUES ?x \x7b 1 \x7d"

theorem parse_nested_tabled : tabled.first.keyword? = some .SELECT ∧
    ∃ unit outer sub span span', parse tabled = .ok unit ∧ unit.query.dataset = [] ∧
      parse tabled.nested = .ok outer ∧
      outer.query.root = ⟨.group, [.subquery (some sub) span], [], none, span'⟩ ∧
      unit.query.resultVariables = [utf8 "s", utf8 "p", utf8 "o"] ∧
      sub.resultVariables = [utf8 "s", utf8 "p", utf8 "o", utf8 "x"] ∧
      ¬ unit.query.ColumnsInScope := by
  have select : tabled.first.keyword? = some .SELECT := by decide +kernel
  have shallow : (parse tabled.nested).toBool = true := by decide +kernel
  have known : (parse tabled).toOption.map (fun unit => (unit.query.dataset,
      unit.query.resultVariables, unit.query.nested.resultVariables)) =
        some ([], [utf8 "s", utf8 "p", utf8 "o"], [utf8 "s", utf8 "p", utf8 "o", utf8 "x"]) := by
    decide +kernel
  cases read : parse tabled with
  | error e =>
      rw [read] at known
      cases known
  | ok unit =>
      rw [read] at known
      obtain ⟨noDataset, rest⟩ := Prod.mk.inj (Option.some.inj known)
      obtain ⟨alone, within⟩ := Prod.mk.inj rest
      rcases parse_nested read select noDataset with
        ⟨e, failed, _⟩ | ⟨outer, sub, span, span', read', root, same, alike⟩
      · rw [failed] at shallow
        cases shallow
      · have names : sub.resultVariables = unit.query.nested.resultVariables := by
          rw [← Query.resultVariables_withoutSpans, same, Query.resultVariables_withoutSpans]
        refine ⟨select, unit, outer, sub, span, span', rfl, noDataset, read', root, alone,
          names.trans within, fun inScope => ?_⟩
        have equal := congrArg Query.resultVariables (alike.mpr inScope)
        rw [Query.resultVariables_withoutSpans, Query.resultVariables_withoutSpans, names, within,
          alone] at equal
        exact absurd equal (by decide)

end QueryUnit

end SparqlMetrics
