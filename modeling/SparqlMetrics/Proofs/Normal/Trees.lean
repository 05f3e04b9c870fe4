import SparqlMetrics.Proofs.Normal.Layout
import SparqlMetrics.Proofs.Reading.Trees
import SparqlMetrics.Proofs.Reading.Units

/-!
# The layout of written trees

Every part of a printable tree is laid out in writing: by induction on the tree, one case for each
kind of node. Lines shun nothing behind them. An expression shuns what goes on with a term and the
end of the line, unless it stands without brackets as a condition. Main statement: `laidOut_query`.
-/
namespace SparqlMetrics

open SparqlMetrics.Normal Lexeme Grammar

section Expressions
variable {indent : Nat} {args : List Expression} {span : Span}

/-- How an expression is laid out; as a condition without brackets it may end its line. -/
structure LaysExpression (indent : Nat) (e : Expression) : Prop where
  text : LaidOut Byte.endsBadly fun ns => (e.write ns indent).text
  alone : e.standsAlone true = true → LaidOut Byte.continuesName fun ns => (e.write ns indent).text

/-- An expression that shuns nothing behind it. -/
theorem laysExpression_of_free {e : Expression}
    (h : LaidOut Byte.none fun ns => (e.write ns indent).text) : LaysExpression indent e :=
  ⟨h.of_free, fun _ => h.of_free⟩

theorem LaysExpression.inside {e : Expression} (h : LaysExpression indent e) (needed : Bool) :
    LaidOut Byte.endsBadly fun ns => Path.bracketedIf needed (e.write ns indent).text :=
  h.text.bracketedIf (by decide) needed

/-- A condition is laid out, between brackets or not. -/
theorem LaysExpression.condition {e : Expression} (h : LaysExpression indent e) (bare : Bool) :
    LaidOut Byte.continuesName fun ns =>
      Path.bracketedIf (!e.standsAlone bare) (e.write ns indent).text := by
  cases stands : e.standsAlone bare with
  | false => exact (h.text.bracketed (by decide)).of_free
  | true =>
      refine h.alone ?_
      cases bare with
      | true => exact stands
      | false => cases e <;> first | rfl | cases stands

theorem laidOut_expressions (h : ∀ e ∈ args, LaysExpression indent e) :
    LaidOut Byte.endsBadly fun ns => (Expression.writeList ns indent args).text := by
  cases args with
  | nil =>
      simp only [Expression.writeList]
      exact .nil
  | cons e es =>
      have comma : LaidOut Byte.none fun _ => [Byte.comma] :=
        .byte (m := .comma) (by decide)
      have more : LaidOut Byte.endsBadly fun ns => (Expression.writeMore ns indent es).text := by
        simp only [text_writeMore]
        exact .separated (comma.append_free (.gap (by decide))) (by decide)
          fun x member => (h x (List.mem_cons_of_mem _ member)).text
      simp only [Expression.writeList, Passage.text_append]
      refine (h e List.mem_cons_self).text.append more fun _ _ rest stop => ?_
      rw [text_writeMore]
      cases es with
      | nil => exact stop
      | cons x xs => exact stopsAt_cons (by decide)

theorem laysExpression_term {t : Term} (legal : t.node.Legal false)
    (clean : t.node.Clean) : LaysExpression indent (.term t span) := by
  have written : ∀ ns, ((Expression.term t span).write ns indent).text = t.write ns := fun ns => by
    rw [Expression.write, Passage.text_part]
  constructor
  · simp only [written]
    exact laidOut_term legal clean
  · intro isVariable
    simp only [written]
    obtain ⟨node, termSpan⟩ := t
    cases node with
    | var name => exact laidOut_variable legal
    | _ => cases isVariable

theorem laysExpression_unary {op : Text} (formed : (Expression.unary op args span).IsWellFormed)
    (reads : ∀ ns : Namespaces, ns.Plain → ∀ e ∈ args, ReadsExpression ns indent e)
    (h : ∀ e ∈ args, LaysExpression indent e) :
    LaysExpression indent (.unary op args span) := by
  obtain ⟨known, one⟩ := formed
  obtain ⟨m, hm, rfl⟩ := List.mem_map.mp known
  obtain ⟨operand, rfl⟩ := List.length_eq_one_iff.mp one
  have inside := (h operand List.mem_cons_self).inside operand.breaksUnary
  have opening := fun ns hns =>
    (reads ns hns operand List.mem_cons_self).opens_operand operand.breaksUnary
  refine ⟨?_, nofun⟩
  simp only [Expression.write, Passage.text_append, Passage.text_part, Passage.text_bracketedIf]
  cases m with
  | bang =>
      have bang : LaidOut (· == Byte.equals) fun _ => [Byte.bang] := .word writtenAs_bang rfl
      exact bang.append inside fun ns hns rest _ => avoids_equals (opening ns hns) rest
  | plus =>
      exact (LaidOut.byte (m := .plus) (by decide)).append_free inside
  | minus =>
      exact (LaidOut.byte (m := .minus) (by decide)).append_free inside
  | _ => exact absurd hm (by decide)

theorem laysExpression_binary {op : Text} (formed : (Expression.binary op args span).IsWellFormed)
    (h : ∀ e ∈ args, LaysExpression indent e) :
    LaysExpression indent (.binary op args span) := by
  obtain ⟨known, two⟩ := formed
  obtain ⟨m, hm, rfl⟩ := List.mem_map.mp known
  obtain ⟨left, right, rfl⟩ := List.length_eq_two.mp two
  have first := (h left List.mem_cons_self).inside (left.breaksBinary (precedence m.text) false)
  have second := (h right (List.mem_cons_of_mem _ List.mem_cons_self)).inside
    (right.breaksBinary (precedence m.text) true)
  have sign : LaidOut (· != Byte.space) fun _ => m.text := .word (writtenAs_operator hm) rfl
  refine ⟨?_, nofun⟩
  simp only [write_binary, List.cons_append]
  exact first.append_cons (sign.append_cons second.space (by decide)).space (by decide)

theorem laidOut_distinct (distinct : Bool) {s : Namespaces → Text} {p : Byte → Bool}
    (h : LaidOut p s) :
    LaidOut p fun ns => utf8 (if distinct then "DISTINCT " else "") ++ s ns := by
  cases distinct with
  | false => exact h
  | true => exact h.behind .DISTINCT (by decide)

/-- The name of a function or an aggregate. -/
theorem laidOut_name {name : Text} (word : IsWord name)
    (noKeyword : Keyword.ofCapitals? name.toUpper = none) :
    LaidOut Byte.endsBadly fun _ => name := by
  refine laidOut_word word ?_
  rw [ofWord, noKeyword]
  rfl

theorem laysExpression_call {callee : Callee} {distinct : Bool}
    (formed : (Expression.call callee distinct args span).IsWellFormed)
    (legal : (Expression.call callee distinct args span).Legal)
    (named : callee.Everywhere printableChecks) (h : ∀ e ∈ args, LaysExpression indent e) :
    LaysExpression indent (.call callee distinct args span) := by
  have name : LaidOut Byte.endsBadly fun ns => callee.write ns := by
    cases callee with
    | builtin name =>
        obtain ⟨⟨word, capital, noKeyword, _⟩, _⟩ := legal
        exact laidOut_name word (capital.symm ▸ noKeyword)
    | iri function => exact laidOut_term named.1 named.2
  refine laysExpression_of_free ?_
  simp only [Expression.write, Passage.text_append, Passage.text_part, Passage.text_bracketed]
  have arguments := (laidOut_distinct distinct (laidOut_expressions h)).bracketed (by decide)
  exact name.append_cons arguments (by decide)

theorem laidOut_separator (separator : Option Text) :
    LaidOut Byte.endsBadly fun _ => separatorText separator := by
  cases separator with
  | none => exact .nil
  | some separator =>
      have words : utf8 "; SEPARATOR=" =
          Byte.semicolon :: Byte.space :: (utf8 "SEPARATOR" ++ [Byte.equals]) := by decide
      have word : LaidOut Byte.endsBadly fun _ => utf8 "SEPARATOR" :=
        laidOut_word (by decide) (by decide)
      have semicolon : LaidOut Byte.none fun _ => [Byte.semicolon] :=
        .byte (m := .semicolon) (by decide)
      have equals : LaidOut Byte.none fun _ => [Byte.equals] :=
        .byte (m := .equal) (by decide)
      simp only [separatorText, words, List.cons_append, List.append_assoc]
      exact semicolon.append_free
        (word.append_cons (equals.append_free (laidOut_string separator)) (by decide)).space

theorem laysExpression_aggregate {name : Text} {distinct star : Bool} {separator : Option Text}
    (legal : isAggregateName name = true) (h : ∀ e ∈ args, LaysExpression indent e) :
    LaysExpression indent (.aggregate name distinct star args separator span) := by
  obtain ⟨word, noKeyword, _⟩ := aggregate_spelled legal
  have items : LaidOut Byte.endsBadly fun ns =>
      (if star then Passage.part [Byte.star] else Expression.writeList ns indent args).text := by
    cases star with
    | false => exact laidOut_expressions h
    | true => exact (LaidOut.byte (m := .star) (by decide)).of_free
  have inner : LaidOut Byte.endsBadly fun ns =>
      (if star then Passage.part [Byte.star] else Expression.writeList ns indent args).text ++
        separatorText separator := by
    refine items.append (laidOut_separator separator) fun _ _ rest stop => ?_
    cases separator with
    | none => exact stop
    | some separator => exact stopsAt_cons (by decide)
  refine laysExpression_of_free ?_
  simp only [Expression.write, Passage.text_append, Passage.text_part, Passage.text_bracketed,
    List.append_assoc]
  have arguments := (laidOut_distinct distinct inner).bracketed (by decide)
  exact (laidOut_name word noKeyword).append_cons arguments (by decide)

theorem laysExpression_member {negated : Bool}
    (formed : (Expression.member negated args span).IsWellFormed)
    (h : ∀ e ∈ args, LaysExpression indent e) :
    LaysExpression indent (.member negated args span) := by
  cases args with
  | nil => exact absurd rfl formed
  | cons left items =>
      have first := (h left List.mem_cons_self).inside
        (left.breaksBinary comparisonPrecedence false)
      have list := (laidOut_expressions fun e member =>
        h e (List.mem_cons_of_mem _ member)).bracketed (by decide)
      have words : LaidOut Byte.none fun ns => memberWords negated ++ Byte.space ::
          Text.bracketed (Expression.writeList ns indent items).text := by
        have word := ((LaidOut.keyword .IN).append_cons list.space (by decide)).space
        cases negated with
        | false => exact word
        | true => exact ((LaidOut.keyword .NOT).append_cons word (by decide)).space
      refine ⟨?_, nofun⟩
      simp only [write_member]
      refine first.append words.of_free fun _ _ rest _ => ?_
      cases negated <;> exact stopsAt_cons (by decide)

theorem laidOut_lbrace : LaidOut Byte.none fun _ => [Byte.lbrace] :=
  .byte (m := .lbrace) (by decide)

theorem laidOut_rbrace : LaidOut Byte.none fun _ => [Byte.rbrace] :=
  .byte (m := .rbrace) (by decide)

theorem laysExpression_exists {negated : Bool} {pattern : Group}
    (h : LaidOut Byte.none fun ns => (pattern.writeContent ns (indent + 2)).text) :
    LaysExpression indent (.exists negated (some pattern) span) := by
  have group : LaidOut Byte.none fun ns =>
      (inlineBraces indent (pattern.writeContent ns (indent + 2))).text := by
    simp only [inlineBraces, Passage.text_append, Passage.text_part]
    exact (laidOut_lbrace.append_free (.gap (by decide))).append_free h
      |>.append_free (laidOut_rbrace.spaces indent)
  have test : LaidOut Byte.none fun ns => testText ns indent pattern :=
    (LaidOut.keyword .EXISTS).append_cons group.space (by decide)
  refine laysExpression_of_free ?_
  simp only [write_exists, denial]
  cases negated with
  | false => exact test
  | true => exact (LaidOut.keyword .NOT).append_cons test.space (by decide)

end Expressions

section Lines
variable {indent : Nat}

theorem laidOut_keywordLine (k : Keyword) : LaidOut Byte.none fun _ => line indent (utf8 k.name) :=
  (LaidOut.keyword k).line (by decide) indent

/-- Lines between braces on lines of their own. -/
theorem laidOut_block {content : Namespaces → Text} (h : LaidOut Byte.none content) :
    LaidOut Byte.none fun ns =>
      line indent [Byte.lbrace] ++ (content ns ++ line indent [Byte.rbrace]) :=
  (laidOut_lbrace.line rfl indent).append_free (h.append_free (laidOut_rbrace.line rfl indent))

theorem laidOut_braces {content : Namespaces → Passage}
    (h : LaidOut Byte.none fun ns => (content ns).text) :
    LaidOut Byte.none fun ns => (braces indent (content ns)).text := by
  simp only [braces_text]
  exact laidOut_block h

/-- A sentence with the dot that ends it. -/
theorem laidOut_sentence {subject predicate object : Namespaces → Text}
    (hs : LaidOut Byte.endsBadly subject) (hp : LaidOut Byte.endsBadly predicate)
    (ho : LaidOut Byte.endsBadly object) :
    LaidOut Byte.none fun ns => line indent (subject ns ++ Byte.space :: predicate ns ++
      Byte.space :: object ns ++ utf8 " .") := by
  have dot : LaidOut Byte.continuesName fun _ => [Byte.dot] := .word writtenAs_dot rfl
  have ended := ((hs.append_cons hp.space (by decide)).append_cons ho.space (by decide)).append_cons
    dot.space (by decide)
  exact ended.line (by decide) indent

theorem laidOut_triple {t : Triple} (h : t.Everywhere printableChecks) :
    LaidOut Byte.none fun ns => line indent (t.write ns) :=
  laidOut_sentence (laidOut_term h.1.1 h.1.2) (laidOut_predicate h.2.1.1 h.2.1.2)
    (laidOut_term h.2.2.1 h.2.2.2)

theorem laidOut_spacedItems {α : Type} {xs : List α} {write : α → Namespaces → Text}
    {p : Byte → Bool} (admits : p Byte.space = false) (h : ∀ x ∈ xs, LaidOut p (write x)) :
    LaidOut Byte.none fun ns => spacedItems (xs.map fun x => write x ns) := by
  have inside : LaidOut Byte.none fun ns =>
      (xs.flatMap fun x => Byte.space :: write x ns) ++ [Byte.space] :=
    (LaidOut.spaced admits h).append_cons (.gap (by decide)) admits
  simpa only [spacedItems, List.flatMap_map] using inside.bracketed rfl

theorem laidOut_cell {cell : Option Term}
    (h : ∀ t, cell = some t → t.node.Legal true ∧ t.node.Clean) :
    LaidOut Byte.endsBadly fun ns => cellText ns cell := by
  cases cell with
  | none => exact (LaidOut.keyword .UNDEF).of_name
  | some t => exact laidOut_term (h t rfl).1 (h t rfl).2

theorem laidOut_table {data : InlineData} (h : data.Everywhere printableChecks) :
    LaidOut Byte.none fun ns => data.write ns indent := by
  obtain ⟨⟨_, names, _⟩, cells⟩ := h
  have columns : LaidOut Byte.none fun _ =>
      spacedItems (data.columns.map fun name => Byte.question :: name) := by
    exact laidOut_spacedItems (p := Byte.continuesName) (by decide) fun name found =>
      laidOut_variable (names name found)
  have rows : LaidOut Byte.none fun ns => data.rows.flatMap fun cells =>
      line (indent + 2) (spacedItems (cells.map (cellText ns))) := by
    refine .flatMap fun row found => LaidOut.line (p := Byte.none) ?_ rfl _
    exact laidOut_spacedItems (p := Byte.endsBadly) (by decide) fun cell inRow =>
      laidOut_cell fun t same => cells row found t (same ▸ inRow)
  simp only [InlineData.write, List.append_assoc]
  exact ((columns.behind .VALUES (by decide)).line rfl indent).append_free (laidOut_block rows)

theorem laidOut_data {data : Option InlineData}
    (h : tableEverywhere printableChecks data) :
    LaidOut Byte.none fun ns => writeData ns indent data := by
  cases data with
  | none => exact .nil
  | some data => exact laidOut_table h

/-- The line of a clause that ends with the name of a graph, a service or a dataset. -/
theorem laidOut_clauseLine {k : Keyword} (naming : k ∈ namingKeywords)
    {front words : Text} (hfront : LaidOut Byte.none fun _ => front)
    (spelled : words = front ++ (utf8 k.name ++ [Byte.space])) {t : Term}
    (named : t.node.isIri = true ∨ t.node.isVar = true) (legal : t.node.Legal true)
    (clean : t.node.Clean) : LaidOut Byte.none fun ns => line indent (words ++ t.write ns) := by
  have clause : LaidOut Byte.none fun ns =>
      utf8 k.name ++ Byte.space :: (t.write ns ++ [Byte.newline]) := by
    obtain ⟨node, span⟩ := t
    cases node with
    | iri value =>
        refine LaidOut.clause naming (c := .token (Text.angled value) (.iri value) Byte.none)
          fun ns hns => ?_
        obtain ⟨l, shuns, same, written, asName⟩ := exists_writtenAs hns clean
        refine ⟨l, shuns, same, written, Bool.eq_false_iff.mpr fun shunned => ?_⟩
        exact absurd (asName _ shunned) (by decide)
    | var name =>
        refine LaidOut.clause naming (c := .token (Byte.question :: name) (.variableName name)
          Byte.continuesName) fun ns _ => ?_
        exact ⟨_, _, rfl, writtenAs_variable legal, by decide⟩
    | _ => simp [Node.isIri, Node.isVar] at named
  have whole := (hfront.append_free clause).spaces indent
  simpa [line, spelled] using whole

/-- The line in front of a group's braces. -/
theorem laidOut_headingLine {kind : GroupKind} (legal : kind.Legal)
    (h : kind.Everywhere printableChecks) :
    LaidOut Byte.none fun ns => kind.headingLine ns indent := by
  cases kind with
  | group => exact .nil
  | union => exact .nil
  | optional => exact laidOut_keywordLine .OPTIONAL
  | minus => exact laidOut_keywordLine .MINUS
  | graph name =>
      obtain ⟨t, rfl, named⟩ := legal
      exact laidOut_clauseLine (k := .GRAPH) (by decide) .nil (by decide) named h.1 h.2
  | service endpoint silent =>
      obtain ⟨t, rfl, named⟩ := legal
      cases silent with
      | false =>
          exact laidOut_clauseLine (k := .SERVICE) (by decide) .nil (by decide) named h.1 h.2
      | true =>
          have front : LaidOut Byte.none fun _ => utf8 "SERVICE " ++ [] :=
            LaidOut.nil.behind .SERVICE (by decide)
          exact laidOut_clauseLine (k := .SILENT) (by decide) front (by decide) named h.1 h.2

end Lines

section Groups

/-- How an element is laid out, and the selection it may be. -/
structure LaysElement (e : Element) : Prop where
  text : ∀ indent, LaidOut Byte.none fun ns => (e.write ns indent).text
  selection : ∀ q span, e = .subquery (some q) span →
    ∀ indent, LaidOut Byte.none fun ns => (q.write ns indent).text

/-- How a group is laid out: what it holds, and the whole of it as a child. -/
structure LaysGroup (g : Group) : Prop where
  content : ∀ indent, LaidOut Byte.none fun ns => (g.writeContent ns indent).text
  child : ∀ indent, LaidOut Byte.none fun ns => (g.write ns indent).text

theorem laysElement_triple {t : Triple} (h : t.Everywhere printableChecks) :
    LaysElement (.triple t) where
  text indent := by
    simp only [Element.write, Passage.text_part]
    exact laidOut_triple h
  selection := by rintro _ _ ⟨⟩

theorem laysElement_path {subject object : Term} {p : Path} {span : Span}
    (formed : p.IsFormed) (clean : ∀ iri ∈ p.iris, IsCleanIri iri)
    (hs : printableChecks.term subject) (ho : printableChecks.term object) :
    LaysElement (.path subject p object span) where
  text indent := by
    simp only [Element.write, Passage.text_part]
    exact laidOut_sentence (laidOut_term hs.1 hs.2) (laidOut_path formed clean)
      (laidOut_term ho.1 ho.2)
  selection := by rintro _ _ ⟨⟩

theorem laysElement_filter {condition : Expression} {span : Span}
    (h : ∀ indent, LaysExpression indent condition) : LaysElement (.filter condition span) where
  text indent := by
    simp only [Element.write, Passage.text_line, Passage.text_append, Passage.text_part,
      Passage.text_bracketedIf]
    exact (((h indent).condition false).behind .FILTER (by decide)).line (by decide) indent
  selection := by rintro _ _ ⟨⟩

theorem laysElement_bind {value : Expression} {target : Term} {span : Span}
    (h : ∀ indent, LaysExpression indent value) (ht : printableChecks.term target) :
    LaysElement (.bind value target span) where
  text indent := by
    have words : utf8 " AS " = Byte.space :: (utf8 "AS" ++ [Byte.space]) := by decide
    have name : LaidOut Byte.endsBadly fun ns => utf8 " AS " ++ target.write ns := by
      simp only [words, List.cons_append, List.append_assoc]
      exact ((LaidOut.keyword .AS).append_cons (laidOut_term ht.1 ht.2).space (by decide)).space
    have both := (h indent).text.append name fun _ _ _ _ => stopsAt_cons (by decide)
    simp only [Element.write, Passage.text_line, Passage.text_append, Passage.text_part,
      Passage.text_bracketed]
    exact ((both.bracketed (by decide)).behind .BIND (by decide)).line rfl indent
  selection := by rintro _ _ ⟨⟩

theorem laysElement_subquery {q : Query} {span : Span}
    (h : ∀ indent, LaidOut Byte.none fun ns => (q.write ns indent).text) :
    LaysElement (.subquery (some q) span) where
  text indent := by
    simp only [Element.write]
    exact laidOut_braces (h _)
  selection := by
    rintro q' span' same
    cases same
    exact h

/-- What a group holds: members that are no selections, or one selection alone. -/
theorem laidOut_content {g : Group} (h : g.Everywhere printableChecks)
    (elements : ∀ e ∈ g.elements, LaysElement e)
    (children : ∀ c ∈ g.children, LaysGroup c) (indent : Nat) :
    LaidOut Byte.none fun ns => (g.writeContent ns indent).text := by
  have plain : (∀ e ∈ g.elements, e.isSubquery = false) →
      LaidOut Byte.none fun ns => (g.writeContent ns indent).text := by
    intro noQuery
    obtain ⟨kind, es, cs, data, span⟩ := g
    simp only [Group.text_writeContent noQuery]
    refine .flatMap fun m member => ?_
    simp only [Group.members, List.mem_append, List.mem_map, Option.mem_toList] at member
    rcases member with ⟨e, he, rfl⟩ | ⟨d, rfl, rfl⟩ | ⟨c, hc, rfl⟩
    · exact (elements e he).text indent
    · exact laidOut_table h.2.2.2.2
    · exact (children c hc).child indent
  obtain ⟨kind, es, cs, data, span⟩ := g
  obtain ⟨⟨_, _, alone, _⟩, _, legal, _⟩ := h
  rcases alone with noQuery | ⟨one, rfl, rfl⟩
  · exact plain noQuery
  · obtain ⟨e, rfl⟩ := List.length_eq_one_iff.mp one
    cases isSubquery : e.isSubquery with
    | false => exact plain (by simpa using isSubquery)
    | true =>
        cases e with
        | subquery query querySpan =>
            have found : (Element.subquery query querySpan).Legal := by
              cases query <;> simp_all [printableChecks]
            obtain ⟨q, rfl, _⟩ := found
            simpa [Group.writeContent, Element.writeList, Group.writeChildren, writeData] using
              (elements _ List.mem_cons_self).selection q querySpan rfl indent
        | _ => cases isSubquery

theorem laidOut_union {g : Group} (kind : g.kind = .union) (formed : g.IsWellFormed)
    (plain : ∀ a ∈ g.children, a.kind = .group) (children : ∀ c ∈ g.children, LaysGroup c)
    (indent : Nat) : LaidOut Byte.none fun ns => (g.write ns indent).text := by
  obtain ⟨noElements, noData, enough⟩ := formed kind
  obtain ⟨_, elements, alternatives, data, span⟩ := g
  obtain rfl : _ = GroupKind.union := kind
  obtain rfl : elements = [] := noElements
  obtain rfl : data = none := noData
  cases alternatives with
  | nil => exact absurd enough (by simp)
  | cons first more =>
      simp only [text_write_union first plain]
      refine (laidOut_braces ((children first List.mem_cons_self).content _)).append_free ?_
      exact .flatMap fun a member => LaidOut.append_free (laidOut_keywordLine .UNION)
        (laidOut_braces ((children a (List.mem_cons_of_mem _ member)).content _))

/-- A group is laid out when its elements and its children are. -/
theorem laysGroup_of_parts {g : Group} (h : g.Everywhere printableChecks)
    (elements : ∀ e ∈ g.elements, LaysElement e)
    (children : ∀ c ∈ g.children, LaysGroup c) : LaysGroup g where
  content := laidOut_content h elements children
  child indent := by
    have content := laidOut_content h elements children
    obtain ⟨kind, es, cs, data, span⟩ := g
    obtain ⟨⟨formed, legal, _, alternatives⟩, named, _⟩ := h
    by_cases union : kind = .union
    · exact laidOut_union union formed (alternatives union) children indent
    · have plain : kind.isUnion = false := by cases kind <;> first | rfl | exact absurd rfl union
      have written : ∀ ns, (Group.write ns indent ⟨kind, es, cs, data, span⟩).text =
          kind.headingLine ns indent ++ (braces indent (Group.writeContent ns (indent + 2)
            ⟨kind, es, cs, data, span⟩)).text := fun _ => text_write_plain plain
      simp only [written]
      exact (laidOut_headingLine legal named).append_free (laidOut_braces (content _))

end Groups

section Queries
variable {indent : Nat}

/-- How the parts of a query are laid out. -/
structure LaysParts (q : Query) : Prop where
  items : ∀ modifier everything items, q.form = .select modifier everything items →
    ∀ p ∈ items, ∀ e, p.value = some e → LaysExpression 0 e
  root : ∀ indent, LaidOut Byte.none fun ns => (q.root.writeContent ns indent).text
  groupBy : ∀ c ∈ q.groupBy, ∀ indent, LaysExpression indent c.value
  having : ∀ e ∈ q.having, ∀ indent, LaysExpression indent e
  orderBy : ∀ c ∈ q.orderBy, ∀ indent, LaysExpression indent c.value

theorem laidOut_named {e : Expression} {name : Text} (h : LaysExpression indent e)
    (isName : IsVariableName name) :
    LaidOut Byte.none fun ns => (namedExpression (e.write ns indent) name).text := by
  have words : LaidOut Byte.none fun _ =>
      Byte.space :: utf8 "AS" ++ Byte.space :: (Byte.question :: name ++ [Byte.rparen]) :=
    ((LaidOut.keyword .AS).append_cons
      ((laidOut_variable isName).append_cons .rparen (by decide)).space (by decide)).space
  simp only [text_namedExpression]
  exact LaidOut.lparen.append_free (h.text.append_cons words (by decide))

theorem laidOut_form {q : Query} (h : q.Everywhere printableChecks)
    (parts : LaysParts q) (noDescription : q.form.isDescribe = false) :
    LaidOut Byte.none fun ns => (q.form.write ns indent).text := by
  obtain ⟨⟨⟨_, legal, _⟩, _⟩, checks, _⟩ := Query.everywhere_iff.mp h
  have opening : ∀ modifier : SelectModifier,
      LaidOut Byte.continuesName fun _ => utf8 "SELECT" ++ modifier.word := by
    intro modifier
    cases modifier with
    | none => exact (LaidOut.keyword .SELECT).append .nil fun _ _ _ => id
    | distinct =>
        exact (LaidOut.keyword .SELECT).append_cons (LaidOut.keyword .DISTINCT).space (by decide)
    | reduced =>
        exact (LaidOut.keyword .SELECT).append_cons (LaidOut.keyword .REDUCED).space (by decide)
  cases form : q.form with
  | select modifier everything items =>
      rw [form] at legal
      cases everything with
      | true =>
          have star : LaidOut Byte.none fun _ => utf8 " *" :=
            LaidOut.space (.byte (m := .star) (by decide))
          simp only [Form.write, Passage.text_part]
          exact ((opening modifier).append_cons star (by decide)).line rfl indent
      | false =>
          have projected : LaidOut Byte.continuesName fun ns =>
              (Projection.writeList ns items).text := by
            simp only [text_projections]
            refine .spaced (by decide) fun p member => ?_
            have name := legal.2 p member
            unfold projectionText
            cases found : p.value with
            | none => exact laidOut_variable name
            | some value =>
                exact (laidOut_named (parts.items _ _ _ form p member value found) name).of_free
          simp only [Form.write, Passage.text_line, Passage.text_append, Passage.text_part]
          refine ((opening modifier).append projected fun _ _ rest stop => ?_).line
            (by decide) indent
          rw [text_projections]
          cases items with
          | nil => exact stop
          | cons p items => exact stopsAt_cons (by decide)
  | ask =>
      simp only [Form.write, Passage.text_part]
      exact laidOut_keywordLine .ASK
  | construct template =>
      rw [form] at checks
      simp only [Form.write, Passage.text_append, Passage.text_part, List.append_assoc]
      exact (laidOut_keywordLine .CONSTRUCT).append_free
        (laidOut_block (.flatMap fun t member => laidOut_triple (checks t member)))
  | describe everything targets =>
      rw [form] at noDescription
      cases noDescription

theorem laidOut_countLine {words : String} (k : Keyword)
    (spelled : utf8 words = utf8 k.name ++ [Byte.space]) {count : Option Int}
    (h : ∀ value, count = some value → IsCount value) :
    LaidOut Byte.none fun _ => countLine indent words count := by
  cases count with
  | none => exact .nil
  | some value =>
      obtain ⟨n, rfl⟩ := Int.eq_ofNat_of_zero_le (h value rfl).1
      have digits : LaidOut Byte.continuesName fun _ => Text.ofInt n :=
        .word (writtenAs_number (.plain (.integer (Text.isDigits_ofNat n)))) rfl
      exact (digits.behind k spelled).line (by decide) indent

theorem laidOut_conditionLine (words : String)
    (hwords : LaidOut Byte.continuesName fun _ => utf8 words) {α : Type} {xs : List α}
    {write : α → Namespaces → Text} {conditions : Namespaces → Passage}
    (written : ∀ ns, (conditions ns).text = xs.flatMap fun x => Byte.space :: write x ns)
    (h : ∀ x ∈ xs, LaidOut Byte.continuesName (write x)) :
    LaidOut Byte.none fun ns => (conditionLine indent words xs.isEmpty (conditions ns)).text := by
  have items : LaidOut Byte.continuesName fun ns => xs.flatMap fun x => Byte.space :: write x ns :=
    .spaced (by decide) h
  simp only [text_conditionLine, written]
  cases xs with
  | nil => exact .nil
  | cons x xs =>
      refine (hwords.append items fun _ _ _ _ => ?_).line (by decide) indent
      exact stopsAt_cons (by decide)

theorem laidOut_modifiers {q : Query} (h : q.Everywhere printableChecks) (parts : LaysParts q) :
    LaidOut Byte.none fun ns => modifierLines ns indent q := by
  obtain ⟨⟨⟨_, _, _, _, names, hlimit, hoffset⟩, _⟩, _⟩ := Query.everywhere_iff.mp h
  have by' : ∀ k : Keyword, LaidOut Byte.continuesName fun _ =>
      utf8 k.name ++ Byte.space :: utf8 "BY" := fun k =>
    (LaidOut.keyword k).append_cons (LaidOut.keyword .BY).space (by decide)
  refine (laidOut_conditionLine "GROUP BY" (by' .GROUP)
      (fun ns => text_groupConditions ns indent _) fun c member => ?_)
    |>.append_free ((laidOut_conditionLine "HAVING" (.keyword .HAVING)
        (fun ns => text_constraints ns indent _)
        fun e member => (parts.having e member indent).condition false)
      |>.append_free ((laidOut_conditionLine "ORDER BY" (by' .ORDER)
          (fun ns => text_orderConditions ns indent _) fun c member => ?_)
        |>.append_free ((laidOut_countLine .LIMIT (by decide) hlimit).append_free
          (laidOut_countLine .OFFSET (by decide) hoffset))))
  · have value := parts.groupBy c member indent
    unfold groupText
    cases found : c.name with
    | none => exact value.condition true
    | some name => exact (laidOut_named value (names c member name found)).of_free
  · have value := parts.orderBy c member indent
    unfold orderText
    cases directionKeyword? c.direction with
    | none => exact value.condition true
    | some k =>
      exact ((LaidOut.keyword k).append_cons (value.text.bracketed (by decide)) (by decide)).of_free

theorem laidOut_datasetLines {dataset : List DatasetClause}
    (absolute : ∀ clause ∈ dataset, Iri.hasScheme clause.iri = true)
    (clean : ∀ clause ∈ dataset, IsCleanIri clause.iri) :
    LaidOut Byte.none fun ns => datasetLines ns indent dataset := by
  refine .flatMap fun clause member => ?_
  have line : ∀ {k : Keyword} {front words : Text}, k ∈ namingKeywords →
      (LaidOut Byte.none fun _ => front) → words = front ++ (utf8 k.name ++ [Byte.space]) →
      LaidOut Byte.none fun ns => line indent (words ++ ns.writeIri clause.iri) :=
    fun naming front spelled => laidOut_clauseLine naming front spelled
      (t := ⟨.iri clause.iri, {}⟩) (.inl rfl) (absolute clause member) (clean clause member)
  unfold DatasetClause.write
  cases clause.named with
  | false => exact line (k := .FROM) (by decide) .nil (by decide)
  | true =>
      have front : LaidOut Byte.none fun _ => utf8 "FROM " ++ [] :=
        LaidOut.nil.behind .FROM (by decide)
      exact line (k := .NAMED) (by decide) front (by decide)

def behindForm (ns : Namespaces) (indent : Nat) (q : Query) : Text :=
  datasetLines ns indent q.dataset ++
    (patternLines ns indent q ++ (modifierLines ns indent q ++ writeData ns indent q.values))

theorem text_writeQuery_form {ns : Namespaces} (q : Query) : (q.write ns indent).text =
    (q.form.write ns indent).text ++ behindForm ns indent q := text_writeQuery q

/-- What stands behind the form of a query is laid out when its parts are. -/
theorem laidOut_behindForm {q : Query} (h : q.Everywhere printableChecks)
    (parts : LaysParts q) (indent : Nat) :
    LaidOut Byte.none fun ns => behindForm ns indent q := by
  obtain ⟨⟨⟨_, _, _, absolute, _⟩, clean⟩, _, _, _, _, _, table⟩ := Query.everywhere_iff.mp h
  have pattern : LaidOut Byte.none fun ns => patternLines ns indent q := by
    unfold patternLines
    cases q.form.isDescribe && q.root.isEmpty with
    | true => exact .nil
    | false => exact (laidOut_keywordLine .WHERE).append_free (laidOut_braces (parts.root _))
  exact (laidOut_datasetLines absolute clean).append_free
    (pattern.append_free ((laidOut_modifiers h parts).append_free (laidOut_data table)))

/-- A query is laid out when its parts are. -/
theorem laidOut_query_of_parts {q : Query} (h : q.Everywhere printableChecks)
    (parts : LaysParts q) (noDescription : q.form.isDescribe = false) (indent : Nat) :
    LaidOut Byte.none fun ns => (q.write ns indent).text := by
  simp only [text_writeQuery_form]
  exact (laidOut_form h parts noDescription).append_free (laidOut_behindForm h parts indent)

end Queries

section Trees

mutual

/-- Every printable expression is laid out. -/
theorem laysExpression_of_printable :
    ∀ e : Expression, e.Everywhere printableChecks → ∀ indent, LaysExpression indent e
  | .term t span, ⟨⟨_, legal, _⟩, _, clean⟩, indent => laysExpression_term legal clean
  | .unary op args span, ⟨⟨formed, _⟩, hargs⟩, indent =>
    laysExpression_unary formed
      (fun _ hns e member => readsExpressions hns.labelled args hargs e member indent)
      fun e member => laysExpressions args hargs e member indent
  | .binary op args span, ⟨⟨formed, _⟩, hargs⟩, indent =>
    laysExpression_binary formed fun e member => laysExpressions args hargs e member indent
  | .call callee distinct args span, ⟨⟨formed, legal⟩, named, hargs⟩, indent =>
    laysExpression_call formed legal named
      fun e member => laysExpressions args hargs e member indent
  | .aggregate name distinct star args separator span, ⟨⟨_, legal⟩, hargs⟩, indent =>
    laysExpression_aggregate legal fun e member => laysExpressions args hargs e member indent
  | .member negated args span, ⟨⟨formed, _⟩, hargs⟩, indent =>
    laysExpression_member formed fun e member => laysExpressions args hargs e member indent
  | .exists negated none span, ⟨formed, _⟩, indent => by cases formed
  | .exists negated (some pattern) span, ⟨_, hpattern⟩, indent =>
    laysExpression_exists ((laysGroup_of_printable pattern hpattern).content _)

theorem laysExpressions :
    ∀ es : List Expression, Expression.EverywhereAll printableChecks es →
      ∀ e ∈ es, ∀ indent, LaysExpression indent e
  | [], _ => nofun
  | e :: rest, ⟨he, hrest⟩ => List.forall_mem_cons.mpr
    ⟨laysExpression_of_printable e he, laysExpressions rest hrest⟩

/-- Every printable element is laid out. -/
theorem laysElement_of_printable :
    ∀ e : Element, e.Everywhere printableChecks → LaysElement e
  | .triple t, ⟨_, ht⟩ => laysElement_triple ht
  | .path subject p object span, ⟨⟨⟨⟨_, formed⟩, _⟩, clean⟩, hs, ho⟩ =>
    laysElement_path formed clean hs ho
  | .filter condition span, ⟨_, hcondition⟩ =>
    laysElement_filter (laysExpression_of_printable condition hcondition)
  | .subquery none span, ⟨⟨_, legal⟩, _⟩ => by
    obtain ⟨q, absurdity, _⟩ := legal
    cases absurdity
  | .subquery (some query) span, ⟨⟨⟨_, legal⟩, _⟩, hquery⟩ => by
    obtain ⟨q, same, ⟨modifier, everything, items, select⟩, _⟩ := legal
    cases same
    have noDescription : query.form.isDescribe = false := by
      rw [select]
      rfl
    exact laysElement_subquery
      (laidOut_query_of_parts hquery (laysParts_of_printable query hquery) noDescription)
  | .bind value target span, ⟨_, hvalue, htarget⟩ =>
    laysElement_bind (laysExpression_of_printable value hvalue) htarget

theorem laysElements :
    ∀ es : List Element, Element.EverywhereAll printableChecks es → ∀ e ∈ es, LaysElement e
  | [], _ => nofun
  | e :: rest, ⟨he, hrest⟩ => List.forall_mem_cons.mpr
    ⟨laysElement_of_printable e he, laysElements rest hrest⟩

/-- Every printable group is laid out. -/
theorem laysGroup_of_printable :
    ∀ g : Group, g.Everywhere printableChecks → LaysGroup g
  | ⟨kind, elements, children, data, span⟩, h =>
    laysGroup_of_parts h (laysElements elements h.2.2.1) (laysGroups children h.2.2.2.1)

theorem laysGroups :
    ∀ gs : List Group, Group.EverywhereAll printableChecks gs → ∀ g ∈ gs, LaysGroup g
  | [], _ => nofun
  | g :: rest, ⟨hg, hrest⟩ => List.forall_mem_cons.mpr
    ⟨laysGroup_of_printable g hg, laysGroups rest hrest⟩

theorem laysProjections :
    ∀ ps : List Projection, Projection.EverywhereAll printableChecks ps →
      ∀ p ∈ ps, ∀ e, p.value = some e → LaysExpression 0 e
  | [], _ => nofun
  | ⟨_, none, _⟩ :: rest, hrest =>
    List.forall_mem_cons.mpr ⟨nofun, laysProjections rest hrest⟩
  | ⟨_, some value, _⟩ :: rest, ⟨hvalue, hrest⟩ =>
    List.forall_mem_cons.mpr ⟨fun e same => Option.some.inj same ▸
      laysExpression_of_printable value hvalue 0, laysProjections rest hrest⟩

theorem laysGroupConditions :
    ∀ cs : List GroupCondition, GroupCondition.EverywhereAll printableChecks cs →
      ∀ c ∈ cs, ∀ indent, LaysExpression indent c.value
  | [], _ => nofun
  | ⟨value, _⟩ :: rest, ⟨hvalue, hrest⟩ => List.forall_mem_cons.mpr
    ⟨laysExpression_of_printable value hvalue, laysGroupConditions rest hrest⟩

theorem laysOrderConditions :
    ∀ cs : List OrderCondition, OrderCondition.EverywhereAll printableChecks cs →
      ∀ c ∈ cs, ∀ indent, LaysExpression indent c.value
  | [], _ => nofun
  | ⟨value, _⟩ :: rest, ⟨hvalue, hrest⟩ => List.forall_mem_cons.mpr
    ⟨laysExpression_of_printable value hvalue, laysOrderConditions rest hrest⟩

/-- The parts of every printable query are laid out. -/
theorem laysParts_of_printable :
    ∀ q : Query, q.Everywhere printableChecks → LaysParts q
  | ⟨form, _, _, root, groupBy, having, orderBy, _, _, values, _⟩,
      ⟨_, hform, hroot, hgroup, hhaving, horder, _⟩ =>
    { items := fun modifier everything items same => by
        cases same
        exact laysProjections items hform
      root := (laysGroup_of_printable root hroot).content
      groupBy := laysGroupConditions groupBy hgroup
      having := laysExpressions having hhaving
      orderBy := laysOrderConditions orderBy horder }

end

/-- Every printable query but a description is laid out. -/
theorem laidOut_query {q : Query} (h : q.Everywhere printableChecks)
    (noDescription : q.form.isDescribe = false) (indent : Nat) :
    LaidOut Byte.none fun ns => (q.write ns indent).text :=
  laidOut_query_of_parts h (laysParts_of_printable q h) noDescription indent

end Trees

end SparqlMetrics
