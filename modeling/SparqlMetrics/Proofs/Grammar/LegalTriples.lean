import SparqlMetrics.Proofs.Grammar.LegalTerms
import SparqlMetrics.Proofs.Text.Numeral

/-!
# Paths, triples and tables as they are read

What the readers of paths, triples and tables yield when the readers one level further in yield what
they should, which is the structure `Level.Legal`.
-/
namespace SparqlMetrics

/-- A predicate position that makes a legal element. -/
def Grammar.Verb.Legal : Grammar.Verb → Prop
  | .term t => t.node.Legal true ∧ (t.node.isIri = true ∨ t.node.isVar = true)
  | .path p => p.Legal ∧ p.isStep = false

namespace Path

theorem legal_step {t : Term} (h : t.IsAbsolute) : (Path.step t).Legal := by
  obtain ⟨⟨node, span⟩, iri, rfl, absolute⟩ := t, h
  exact ⟨rfl, by simpa [iris] using absolute⟩

theorem Legal.join {left right : Path} (how : PathJoin) (hl : left.Legal) (hr : right.Legal) :
    (Path.join how left right).Legal :=
  ⟨⟨hl.1, hr.1⟩, fun iri mem => (List.mem_append.mp mem).elim (hl.2 iri) (hr.2 iri)⟩

/-- What a negated set holds. -/
def LegalMembers (p : Path) : Prop :=
  (p = .placeholder ∨ p.IsMemberChain) ∧ ∀ iri ∈ p.iris, Iri.hasScheme iri = true

theorem IsMember.isMemberChain {p : Path} (h : p.IsMember) : p.IsMemberChain := by
  cases p with
  | step => exact h
  | inverse => exact h
  | _ => exact h.elim

def LegalMember (p : Path) : Prop := p.IsMember ∧ ∀ iri ∈ p.iris, Iri.hasScheme iri = true

theorem LegalMember.members {p : Path} (h : p.LegalMember) : p.LegalMembers :=
  ⟨.inr h.1.isMemberChain, h.2⟩

end Path

namespace Grammar

open SparqlMetrics.Parser

/-- Readers further in that yield legal trees under legal declarations. -/
structure Level.Legal (level : Level) : Prop where
  namespaces : level.namespaces.Legal
  operand : Yields level.operand (·.Everywhere legalChecks)
  group : ∀ kind : GroupKind, kind.Legal → kind.Everywhere legalChecks → kind ≠ .union →
    Yields (level.group kind) fun g => g.Everywhere legalChecks ∧ g.kind = kind
  pathGroup : Yields level.pathGroup Path.Legal
  blankNode : Yields level.blankNode fun r => r.1.node.Legal true ∧ ∀ e ∈ r.2, e.IsStatement

variable {ns : Namespaces} {level : Level}

theorem isAbsolute_rdfType (span : Span) : Term.IsAbsolute ⟨.iri Iri.rdfType, span⟩ :=
  ⟨Iri.rdfType, rfl, by decide⟩

theorem yields_iriStep (h : ns.Legal) :
    Yields (iriStep ns) fun p => p.Legal ∧ ∃ t, p = .step t ∧ t.IsAbsolute :=
  yields_token.bind fun t _ => by
    split
    · refine yields_skip.bind fun _ _ => yields_pure ⟨Path.legal_step (isAbsolute_rdfType _), ?_⟩
      exact ⟨_, rfl, isAbsolute_rdfType _⟩
    · exact (yields_iriTerm h).map fun t ht => ⟨Path.legal_step ht, t, rfl, ht⟩

theorem yields_setMember (h : ns.Legal) : Yields (setMember ns) Path.LegalMember :=
  (yields_tryMark _).bind fun _ _ => by
    split
    · refine (yields_iriStep h).map fun p hp => ?_
      obtain ⟨legal, t, rfl, absolute⟩ := hp
      exact ⟨absolute.isIri, legal.2⟩
    · refine (yields_iriStep h).mono fun p hp => ?_
      obtain ⟨legal, t, rfl, absolute⟩ := hp
      exact ⟨absolute.isIri, legal.2⟩

/-- A join keeps what its parts give it. -/
theorem yields_joinAfter {s : Symbol} {how : PathJoin} {part : Parser Path} {I J : Path → Prop}
    (hpart : Yields part J) (hjoin : ∀ left right, I left → J right → I (.join how left right))
    (left : Path) (hl : I left) : Yields (joinAfter s how part left) (IfSome I) :=
  (yields_tryMark s).bind fun _ _ => by
    split
    · exact hpart.bind fun right hr => yields_pure (ifSome_some (hjoin left right hl hr))
    · exact yields_none

theorem yields_setMembers (h : ns.Legal) : Yields (setMembers ns) Path.LegalMembers :=
  (yields_isAt _).bind fun _ _ => by
    split
    · exact yields_pure ⟨.inl rfl, by simp [Path.placeholder, Path.iris]⟩
    · refine (yields_setMember h).bind fun first hfirst => ?_
      have chain : Yields (repeatFrom (joinAfter .pipe .alternative (setMember ns)) first)
          fun p => p.IsMemberChain ∧ ∀ iri ∈ p.iris, Iri.hasScheme iri = true := by
        refine yields_repeatFrom (fun left hl => ?_) ⟨hfirst.1.isMemberChain, hfirst.2⟩
        refine yields_joinAfter (yields_setMember h) (fun left right hl hr => ?_) left hl
        exact ⟨⟨hl.1, hr.1⟩, fun iri mem => (List.mem_append.mp mem).elim (hl.2 iri) (hr.2 iri)⟩
      exact chain.mono fun p hp => ⟨.inr hp.1, hp.2⟩

theorem yields_negatedSet (h : ns.Legal) : Yields (negatedSet ns) Path.Legal :=
  (yields_tryMark _).bind fun _ _ => by
    split
    · exact (yields_setMembers h).bind fun p hp => (yields_mark _ _).bind fun _ _ => yields_pure hp
    · exact (yields_setMember h).map fun p hp => hp.members

theorem yields_pathPrimary (h : level.Legal) : Yields (pathPrimary level) Path.Legal := by
  have step : Yields (iriStep level.namespaces) Path.Legal :=
    (yields_iriStep h.namespaces).mono fun p hp => hp.1
  refine yields_lexeme.bind fun here _ => ?_
  split
  · exact yields_skip.bind fun _ _ => yields_negatedSet h.namespaces
  · exact h.pathGroup
  · exact step
  · exact step
  · split
    · exact step
    · exact yields_expected _

theorem yields_pathElement (h : level.Legal) : Yields (pathElement level) Path.Legal :=
  (yields_pathPrimary h).bind fun p hp => yields_lexeme.bind fun here _ => by
    split
    · exact yields_skip.bind fun _ _ => yields_pure hp
    · exact yields_pure hp

theorem yields_pathPart (h : level.Legal) : Yields (pathPart level) Path.Legal :=
  (yields_tryMark _).bind fun _ _ => by
    split
    · exact (yields_pathElement h).map fun p hp => hp
    · exact yields_pathElement h

theorem yields_pathSequence (h : level.Legal) : Yields (pathSequence level) Path.Legal :=
  (yields_pathPart h).bind fun _ hp => yields_repeatFrom
    (yields_joinAfter (yields_pathPart h) fun _ _ hl hr => hl.join _ hr) hp

theorem yields_path (h : level.Legal) : Yields (path level) Path.Legal :=
  (yields_pathSequence h).bind fun _ hp => yields_repeatFrom
    (yields_joinAfter (yields_pathSequence h) fun _ _ hl hr => hl.join _ hr) hp

theorem yields_bracketedPath (h : level.Legal) : Yields (bracketedPath level) Path.Legal :=
  yields_skip.bind fun _ _ => (yields_path h).bind fun _ hp =>
    (yields_mark _ _).bind fun _ _ => yields_pure hp

theorem Verb.legal_ofPath {p : Path} (h : p.Legal) : (Verb.ofPath p).Legal := by
  cases p with
  | step t =>
      obtain ⟨node, span⟩ := t
      cases node with
      | iri value =>
          exact ⟨by simpa [Node.Legal, Path.iris] using h.2, .inl rfl⟩
      | _ => cases h.1
  | _ => exact ⟨h, rfl⟩

theorem yields_verb (h : level.Legal) : Yields (verb level) Verb.Legal :=
  yields_lexeme_bind fun here _ => by
    split
    · intro c v c' hc hhere hv
      rw [← bind_pure_comp] at hv
      refine YieldsAt.bind (yieldsAt_variable _) (fun t ht => ?_) c v c' hc hhere hv
      refine yields_pure ?_
      simp only [Verb.Legal, ht.1]
      exact ⟨ht.2, .inr rfl⟩
    · exact ((yields_path h).map fun p hp => Verb.legal_ofPath hp).at _

theorem Verb.Legal.isStatement_element {v : Verb} (h : v.Legal) {subject object : Term}
    (hs : subject.node.Legal true) (ho : object.node.Legal true) (span : Span) :
    (v.element subject object span).IsStatement := by
  cases v with
  | term predicate => exact ⟨⟨⟨h.2, trivial⟩, hs, h.1, ho⟩, rfl⟩
  | path p => exact ⟨⟨⟨⟨h.2, h.1.1⟩, h.1.2⟩, hs, ho⟩, rfl⟩

/-- What stands in a subject or an object position with the triples it brings. -/
abbrev TermWithTriples (r : Term × List Element) : Prop :=
  r.1.node.Legal true ∧ ∀ e ∈ r.2, e.IsStatement

theorem yields_object (h : level.Legal) : Yields (object level) TermWithTriples :=
  yields_lexeme.bind fun here _ => by
    split
    · exact h.blankNode
    · exact yields_fail _
    · exact (yields_varOrTerm h.namespaces).bind fun t ht => yields_pure ⟨ht, by simp⟩

theorem yields_objectElements (h : level.Legal) {subject : Term} (hs : subject.node.Legal true)
    {v : Verb} (hv : v.Legal) :
    Yields (objectElements level subject v) (∀ e ∈ ·, e.IsStatement) :=
  (yields_object h).bind fun r hr => yields_position.bind fun _ _ => yields_pure fun e he => by
    rcases List.mem_append.mp he with he | he
    · exact hr.2 e he
    · rw [List.mem_singleton.mp he]
      exact hv.isStatement_element hs hr.1 _

theorem forall_mem_append_flatten {α : Type} {P : α → Prop} {first : List α}
    {more : List (List α)} (hf : ∀ e ∈ first, P e) (hm : ∀ es ∈ more, ∀ e ∈ es, P e) :
    ∀ e ∈ first ++ more.flatten, P e := by
  intro e he
  rcases List.mem_append.mp he with he | he
  · exact hf e he
  · obtain ⟨es, hes, he⟩ := List.mem_flatten.mp he
    exact hm es hes e he

theorem yields_property (h : level.Legal) {subject : Term} (hs : subject.node.Legal true) :
    Yields (property level subject) (∀ e ∈ ·, e.IsStatement) :=
  (yields_verb h).bind fun _ hv => (yields_objectElements h hs hv).bind fun _ hfirst => by
    refine Yields.bind (Yields.many ?_) fun more hmore =>
      yields_pure (forall_mem_append_flatten hfirst hmore)
    refine (yields_tryMark _).bind fun _ _ => ?_
    split
    · exact (yields_objectElements h hs hv).some
    · exact yields_none

theorem yields_skipSemicolons : Yields skipSemicolons fun _ => True := by
  refine Yields.bind (Yields.many (P := fun _ => True) ?_) fun _ _ => yields_pure trivial
  refine (yields_tryMark _).bind fun _ _ => ?_
  split
  · exact yields_pure (ifSome_some trivial)
  · exact yields_none

theorem yields_nextProperty (h : level.Legal) {subject : Term} (hs : subject.node.Legal true) :
    Yields (nextProperty level subject) (IfSome (∀ e ∈ ·, e.IsStatement)) :=
  (yields_isAt _).bind fun _ _ => by
    split
    · refine yields_skipSemicolons.bind fun _ _ => yields_lexeme.bind fun here _ => ?_
      split
      · exact (yields_property h hs).some
      · exact yields_none
    · exact yields_none

theorem yields_propertyList (h : level.Legal) {subject : Term} (hs : subject.node.Legal true)
    (required : Bool) :
    Yields (propertyList level subject required) (∀ e ∈ ·, e.IsStatement) :=
  yields_lexeme.bind fun here _ => by
    split
    · exact (yields_property h hs).bind fun _ hfirst =>
        (yields_nextProperty h hs).many.bind fun _ hmore =>
          yields_pure (forall_mem_append_flatten hfirst hmore)
    split
    · exact yields_expected _
    · exact yields_pure (by simp)

theorem isNameByte_of_isDigit {b : Byte} (h : b.isDigit = true) : b.isNameByte = true := by
  simp [Byte.isNameByte, Byte.isAlnum, h]

theorem isBlankLabel_bracketLabel (before : Nat) : IsBlankLabel (bracketLabel before) := by
  have digits := Text.isDigits_ofNat before
  refine ⟨by simp [bracketLabel, digits.1], fun b hb => ?_, ?_⟩
  · rcases List.mem_append.mp hb with hb | hb
    · have word : (utf8 "genid").all Byte.isNameByte = true := by decide
      simp [List.all_eq_true.mp word b hb]
    · simp [isNameByte_of_isDigit (digits.2 b hb)]
  · intro same
    rw [bracketLabel, List.getLast?_append, Option.or_eq_some_iff] at same
    rcases same with last | ⟨noDigit, _⟩
    · exact absurd (digits.2 _ (List.mem_of_getLast? last)) (by decide)
    · exact digits.1 (List.getLast?_eq_none_iff.mp noDigit)

theorem yields_freshBlankNode (start : Nat) :
    Yields (freshBlankNode start) (·.node.Legal true) := by
  intro c t c' hc ht
  obtain ⟨rfl, rfl⟩ : ⟨.blank (bracketLabel c.blankCount), ⟨start, start⟩⟩ = t ∧
      { c with blankCount := c.blankCount + 1 } = c' := by simpa [freshBlankNode] using ht
  exact ⟨isBlankLabel_bracketLabel _, hc⟩

theorem yields_bracketedBlankNode (h : level.Legal) :
    Yields (bracketedBlankNode level) TermWithTriples :=
  yields_position.bind fun start _ => yields_skip.bind fun _ _ =>
    (yields_freshBlankNode start).bind fun node hnode => (yields_tryMark _).bind fun _ _ => by
      split
      · exact yields_position.bind fun _ _ => yields_pure ⟨hnode, by simp⟩
      · exact (yields_propertyList h hnode true).bind fun _ hp => (yields_mark _ _).bind fun _ _ =>
          yields_position.bind fun _ _ => yields_pure ⟨hnode, hp⟩

theorem yields_triplesSameSubject (h : level.Legal) :
    Yields (triplesSameSubject level) (∀ e ∈ ·, e.IsStatement) :=
  yields_lexeme.bind fun here _ => by
    split
    · exact yields_fail _
    · refine yields_followingLexeme.bind fun next _ => h.blankNode.bind fun r hr => ?_
      refine (yields_propertyList h hr.1 _).bind fun properties hp => yields_pure fun e he => ?_
      exact (List.mem_append.mp he).elim (hr.2 e) (hp e)
    · exact (yields_varOrTerm h.namespaces).bind fun _ hs => yields_propertyList h hs true

abbrev LegalCells (cells : List (Option Term)) : Prop :=
  ∀ cell ∈ cells, IfSome (fun t => t.node.Legal true ∧ t.node.isResource = true) cell

theorem yields_valuesUpTo (h : ns.Legal) (closing : Symbol) :
    Yields (valuesUpTo ns closing) LegalCells := by
  refine Yields.bind (Yields.many ?_) fun cells hcells => yields_skip.bind fun _ _ =>
    yields_pure hcells
  refine (yields_isAt _).bind fun _ _ => ?_
  split
  · exact yields_none
  · exact (yields_dataValue h).some

theorem yields_row (h : ns.Legal) (columns : Nat) :
    Yields (row ns columns) (IfSome fun cells => cells.length = columns ∧ LegalCells cells) :=
  (yields_tryMark _).bind fun _ _ => by
    split
    · refine (yields_valuesUpTo h _).bind fun cells hcells => ?_
      split
      · next width => exact yields_pure (ifSome_some ⟨width, hcells⟩)
      · exact yields_fail _
    · exact yields_none

theorem yields_column? : Yields column? (IfSome IsVariableName) :=
  yields_lexeme.bind fun here spelled => by
    split
    · exact yields_skip.bind fun _ _ => yields_pure (ifSome_some spelled)
    · exact yields_none

/-- A table is legal when its columns, the width of its rows and its cells are. -/
theorem everywhere_table {columns : List Text} {rows : List (List (Option Term))} (span : Span)
    (hc : ∀ name ∈ columns, IsVariableName name)
    (hr : ∀ cells ∈ rows, cells.length = columns.length ∧ LegalCells cells) :
    InlineData.Everywhere legalChecks ⟨columns, rows, span⟩ :=
  ⟨⟨fun cells hcells => (hr cells hcells).1, hc,
      fun cells hcells t ht => ((hr cells hcells).2 _ ht t rfl).2⟩,
    fun cells hcells t ht => ((hr cells hcells).2 _ ht t rfl).1⟩

theorem yields_inlineData (h : ns.Legal) :
    Yields (inlineData ns) (·.Everywhere legalChecks) :=
  yields_position.bind fun _ _ => yields_lexeme.bind fun here spelled => by
    split
    · refine yields_skip.bind fun _ _ => (yields_mark _ _).bind fun _ _ =>
        (yields_valuesUpTo h _).bind fun cells hcells => yields_position.bind fun _ _ =>
          yields_pure (everywhere_table _ (List.forall_mem_singleton.mpr spelled) fun row hrow => ?_)
      obtain ⟨cell, hcell, rfl⟩ := List.mem_map.mp hrow
      exact ⟨rfl, by simpa [LegalCells] using hcells cell hcell⟩
    · exact yields_skip.bind fun _ _ => yields_column?.many.bind fun _ hcolumns =>
        (yields_mark _ _).bind fun _ _ => (yields_mark _ _).bind fun _ _ =>
          (yields_row h _).many.bind fun _ hrows => (yields_mark _ _).bind fun _ _ =>
            yields_position.bind fun _ _ => yields_pure (everywhere_table _ hcolumns hrows)
    · exact yields_expected _

end Grammar

end SparqlMetrics
