import SparqlMetrics.Grammar.Triples
import SparqlMetrics.Proofs.Grammar.AnswersTerms
import SparqlMetrics.Proofs.Grammar.Braced

/-!
# Terms, paths, triples and tables up to a closing brace

The readers of terms, paths, triples and tables read the same in front of a closing brace as in front
of the end. Each of them but those of signs and tails takes a token. The cells of a table with one
column end at a brace of their own, and the reader of cells fails at the end.
-/
namespace SparqlMetrics.Grammar

open SparqlMetrics.Parser

variable {ns : Namespaces} {A : Cursor → Prop} {α β : Type} {m : β → Nat}

/-! ## Terms -/

theorem inBraces_resolvedIri : InBraces (fun _ => 0) (resolvedIri ns) (resolvedIri ns) := by
  refine inBraces_token (fun t => ?_) fun t _ _ _ => inBraces_expected _ _
  split
  · split
    · exact inBraces_pure rfl
    · exact fun _ _ _ _ _ _ read => nomatch read
  · split
    · exact inBraces_pure rfl
    · exact fun _ _ _ _ _ _ read => nomatch read
  · exact inBraces_expected _ _

/-- To look up an IRI and pass over its token. -/
theorem inBraces_iri {f : Text → Parser β}
    (h : ∀ iri, InBraces (fun y => m y - 1) (f iri) (f iri)) :
    InBraces m (resolvedIri ns >>= fun iri => skip >>= fun _ => f iri)
      (resolvedIri ns >>= fun iri => skip >>= fun _ => f iri) := by
  refine inBraces_resolvedIri.bindIf (B := fun _ d => d.Full) (fun d iri d₁ _ read _ => ?_)
    fun iri => inBraces_pass.bind fun _ => h iri
  obtain ⟨rfl, ⟨_, same⟩ | ⟨_, _, same⟩⟩ := stays_of_resolvedIri read
  · exact fun ended => nomatch same.symm.trans ended
  · exact fun ended => nomatch same.symm.trans ended

/-- There is no IRI at the end. -/
theorem inBraces_iriEnded (p : Parser β) (f : Text → Parser β) :
    InBracesIf (·.token.lexeme = .endOfInput) m p (resolvedIri ns >>= f) := by
  intro c d _ ended y d' read
  obtain ⟨iri, d₁, first, _⟩ := bind_eq_ok.mp read
  obtain ⟨_, ⟨_, same⟩ | ⟨_, _, same⟩⟩ := stays_of_resolvedIri first
  · exact nomatch same.symm.trans ended
  · exact nomatch same.symm.trans ended

theorem inBraces_iriTerm : InBraces (fun _ => 1) (iriTerm ns) (iriTerm ns) :=
  inBraces_token (fun _ => (inBraces_iri fun _ => inBraces_pure rfl).at)
    fun _ _ _ _ => inBraces_iriEnded _ _

theorem inBraces_stringTail (value : Text) :
    InBraces (fun _ => 0) (stringTail ns value) (stringTail ns value) := by
  refine inBraces_stopping (fun here => ?_) rfl (inBraces_pure rfl)
  split
  · exact inBraces_pass.bind fun _ => inBraces_pure rfl
  · exact inBraces_pass.bind fun _ => inBraces_iri fun _ => inBraces_pure rfl
  · exact inBraces_pure rfl

theorem inBraces_numberSign : InBraces (fun _ => 0) numberSign numberSign := by
  refine inBraces_stopping (fun here => ?_) rfl (inBraces_pure rfl)
  split
  · refine inBraces_following rfl fun next => ?_
    split
    · exact inBraces_pass.bind fun _ => inBraces_pure rfl
    · exact inBraces_expected _ _
  · exact inBraces_pure rfl

theorem inBraces_literalTerm : InBraces (fun _ => 1) (literalTerm ns) (literalTerm ns) :=
  inBraces_position fun start => inBraces_numberSign.bind fun sign => by
    have finish : ∀ l : Literal, InBraces (fun _ => 0)
        (do pure (⟨.literal l, ⟨start, ← position⟩⟩ : Term))
        (do pure (⟨.literal l, ⟨start, ← position⟩⟩ : Term)) :=
      fun _ => inBraces_position fun _ => inBraces_pure rfl
    refine inBraces_opening (fun here => ?_) fun p => ?_
    · split
      · exact inBraces_pass.bind fun _ => (inBraces_stringTail _).bind finish
      · exact inBraces_pass.bind fun _ => finish _
      · exact inBraces_pass.bind fun _ => finish _
      · exact inBraces_pass.bind fun _ => finish _
      · exact fun _ _ _ _ _ _ read => nomatch read
    · exact fun _ _ _ _ _ _ read => nomatch read

theorem inBraces_varOrTerm : InBraces (fun _ => 1) (varOrTerm ns) (varOrTerm ns) := by
  refine inBraces_token (fun t => ?_) fun t _ _ _ => inBraces_expected _ _
  split
  · exact inBraces_pass.bind fun _ => inBraces_pure rfl
  · exact inBraces_pass.bind fun _ => inBraces_pure rfl
  · exact inBraces_iriTerm.at
  · exact inBraces_iriTerm.at
  · exact inBraces_literalTerm.at
  · exact inBraces_literalTerm.at
  · exact inBraces_literalTerm.at
  · exact inBraces_literalTerm.at
  · exact inBraces_literalTerm.at
  · exact inBraces_literalTerm.at
  · exact inBraces_expected _ _

theorem inBraces_varOrIri : InBraces (fun _ => 1) (varOrIri ns) (varOrIri ns) := by
  refine inBraces_opening (fun here => ?_) fun p => inBraces_expected p _
  split
  · exact inBraces_varOrTerm.at
  · exact inBraces_iriTerm.at
  · exact inBraces_iriTerm.at
  · exact inBraces_expected _ _

theorem inBraces_freshBlankNode (start : Nat) :
    InBraces (fun _ => 0) (freshBlankNode start) (freshBlankNode start) := by
  intro c d place _ t d' read
  obtain ⟨rfl, rfl⟩ := Prod.mk.inj (Except.ok.inj read)
  rcases place.place with rfl | ⟨rfl, noTokens⟩
  · exact ⟨_, rfl, ⟨place.ended, .inl rfl⟩, Nat.le_refl _⟩
  · exact ⟨_, rfl, ⟨place.ended, .inr ⟨rfl, noTokens⟩⟩, Nat.le_refl _⟩

theorem inBraces_dataValue : InBraces (fun _ => 1) (dataValue ns) (dataValue ns) := by
  refine inBraces_opening (fun here => ?_) fun p => inBraces_expected p _
  split
  · exact inBraces_pass.bind fun _ => inBraces_pure rfl
  · exact inBraces_iriTerm.at.map
  · exact inBraces_iriTerm.at.map
  · exact inBraces_literalTerm.at.map
  · exact inBraces_literalTerm.at.map
  · exact inBraces_literalTerm.at.map
  · exact inBraces_literalTerm.at.map
  · exact inBraces_literalTerm.at.map
  · exact inBraces_literalTerm.at.map
  · exact inBraces_expected _ _

/-! ## Paths -/

/-- Readers one level further in that read the same up to a closing brace. -/
structure Level.InBraces (level : Level) : Prop where
  operand : Parser.InBraces (fun _ => 1) level.operand level.operand
  group : ∀ kind, Parser.InBraces (fun _ => 1) (level.group kind) (level.group kind)
  pathGroup : Parser.InBraces (fun _ => 1) level.pathGroup level.pathGroup
  blankNode : Parser.InBraces (fun _ => 1) level.blankNode level.blankNode

theorem inBraces_iriStep : InBraces (fun _ => 1) (iriStep ns) (iriStep ns) := by
  refine inBraces_token (fun t => ?_) fun t _ _ alike => ?_
  · split
    · exact inBraces_pass.bind fun _ => inBraces_pure rfl
    · exact inBraces_iriTerm.at.map
  · rw [alike.answer (f := Lexeme.isTypeWord) rfl]
    exact InBraces.at inBraces_iriTerm.map

theorem inBraces_setMember : InBraces (fun _ => 1) (setMember ns) (setMember ns) :=
  (inBraces_tryMark (by nofun)).bind fun found => by
    cases found with
    | true => exact inBraces_iriStep.free.map
    | false => exact inBraces_iriStep

theorem inBraces_joinAfter {s : Symbol} (other : s ≠ .rbrace) {how : PathJoin} {part : Parser Path}
    (h : InBraces (fun _ => 1) part part) (left : Path) :
    InBraces perItem (joinAfter s how part left) (joinAfter s how part left) :=
  (inBraces_tryMark other).bind fun
    | true => h.bind fun _ => inBraces_pure rfl
    | false => inBraces_pure rfl

theorem inBraces_setMembers : InBraces (fun _ => 0) (setMembers ns) (setMembers ns) := by
  refine inBraces_isAt (by nofun) (inBraces_pure rfl) ?_
  exact inBraces_setMember.bind fun _ => inBraces_repeatFrom
    (inBraces_joinAfter (by nofun) inBraces_setMember) _

theorem inBraces_negatedSet : InBraces (fun _ => 1) (negatedSet ns) (negatedSet ns) :=
  (inBraces_tryMark (by nofun)).bind fun found => by
    cases found with
    | true =>
        exact inBraces_setMembers.bind fun _ => (inBraces_mark _ _).free.bind
          fun _ => inBraces_pure rfl
    | false => exact inBraces_setMember.map

variable {level : Level}

theorem inBraces_pathPrimary (h : level.InBraces) :
    InBraces (fun _ => 1) (pathPrimary level) (pathPrimary level) := by
  refine inBraces_opening (fun here => ?_) fun p => inBraces_expected p _
  split
  · exact inBraces_pass.bind fun _ => inBraces_negatedSet.free
  · exact h.pathGroup.at
  · exact inBraces_iriStep.at
  · exact inBraces_iriStep.at
  · exact inBraces_ite (fun _ => inBraces_iriStep.at) fun _ => inBraces_expected _ _

theorem inBraces_pathElement (h : level.InBraces) :
    InBraces (fun _ => 1) (pathElement level) (pathElement level) :=
  (inBraces_pathPrimary h).bind fun _ => by
    refine inBraces_stopping (fun here => ?_) rfl (inBraces_pure rfl)
    split
    · exact inBraces_skip.at.bind fun _ => inBraces_pure rfl
    · exact inBraces_pure rfl

theorem inBraces_pathPart (h : level.InBraces) :
    InBraces (fun _ => 1) (pathPart level) (pathPart level) :=
  (inBraces_tryMark (by nofun)).bind fun found => by
    cases found with
    | true => exact (inBraces_pathElement h).free.map
    | false => exact inBraces_pathElement h

theorem inBraces_pathSequence (h : level.InBraces) :
    InBraces (fun _ => 1) (pathSequence level) (pathSequence level) :=
  (inBraces_pathPart h).bind fun first =>
    inBraces_repeatFrom (inBraces_joinAfter (by nofun) (inBraces_pathPart h)) first

theorem inBraces_path (h : level.InBraces) :
    InBraces (fun _ => 1) (path level) (path level) :=
  (inBraces_pathSequence h).bind fun first =>
    inBraces_repeatFrom (inBraces_joinAfter (by nofun) (inBraces_pathSequence h)) first

theorem inBraces_bracketedPath (h : level.InBraces) :
    InBraces (fun _ => 1) (bracketedPath level) (bracketedPath level) :=
  inBraces_skip.bind fun _ => (inBraces_path h).bind fun _ => (inBraces_mark _ _).free.bind
    fun _ => inBraces_pure rfl

theorem inBraces_verb (h : level.InBraces) :
    InBraces (fun _ => 1) (verb level) (verb level) := by
  refine inBraces_stopping (fun here => ?_) rfl (inBraces_path h).map
  split
  · exact inBraces_varOrTerm.at.map
  · exact (inBraces_path h).at.map

/-! ## Triples -/

/-- A question about the lexeme here and the next one, which no closing brace answers with yes. -/
theorem inBraces_opens {opens : Lexeme → Lexeme → Bool} {f g : Bool → Parser β}
    (here : ∀ next, opens .endOfInput next = false)
    (brace : ∀ next, opens (.symbol .rbrace) next = false)
    (next : ∀ here, opens here (.symbol .rbrace) = opens here .endOfInput)
    (yes : InBraces m (f true) (g true)) (no : InBraces m (f false) (g false)) :
    InBraces m ((do return opens (← lexeme) (← followingLexeme)) >>= f)
      ((do return opens (← lexeme) (← followingLexeme)) >>= g) := by
  intro c d place _ y d' read
  have same : opens c.token.lexeme c.following.lexeme =
      opens d.token.lexeme d.following.lexeme := by
    rw [place.lexeme.answer (f := (opens · c.following.lexeme)) (by rw [here, brace])]
    exact place.advance.lexeme.answer (next _)
  show ∃ c', f (opens c.token.lexeme c.following.lexeme) c = _ ∧ _
  rw [same]
  have read' : g (opens d.token.lexeme d.following.lexeme) d = .ok (y, d') := read
  cases found : opens d.token.lexeme d.following.lexeme with
  | true => exact yes c d place trivial y d' (found ▸ read')
  | false => exact no c d place trivial y d' (found ▸ read')

theorem startsTriples_next (here : Lexeme) :
    startsTriples here (.symbol .rbrace) = startsTriples here .endOfInput := by
  rw [startsTriples.eq_def, startsTriples.eq_def]
  split <;> rfl

theorem inBraces_atTriples {f g : Bool → Parser β} (yes : InBraces m (f true) (g true))
    (no : InBraces m (f false) (g false)) : InBraces m (atTriples >>= f) (atTriples >>= g) :=
  inBraces_opens (fun _ => rfl) (fun _ => rfl) startsTriples_next yes no

theorem inBraces_object (h : level.InBraces) :
    InBraces (fun _ => 1) (object level) (object level) := by
  have plain : InBraces (fun _ => 1) (do return (← varOrTerm level.namespaces, ([] : List Element)))
      (do return (← varOrTerm level.namespaces, ([] : List Element))) :=
    inBraces_varOrTerm.bind fun _ => inBraces_pure rfl
  refine inBraces_stopping (fun here => ?_) rfl plain
  split
  · exact h.blankNode.at
  · exact inBraces_fail _ _
  · exact plain.at

theorem inBraces_objectElements (h : level.InBraces) (subject : Term) (v : Verb) :
    InBraces (fun _ => 1) (objectElements level subject v) (objectElements level subject v) :=
  (inBraces_object h).bind fun _ => inBraces_position fun _ => inBraces_pure rfl

theorem inBraces_property (h : level.InBraces) (subject : Term) :
    InBraces (fun _ => 1) (property level subject) (property level subject) :=
  (inBraces_verb h).bind fun v => (inBraces_objectElements h subject v).free.bind fun _ =>
    (inBraces_markItem (by nofun) (inBraces_objectElements h subject v).free).many.bind
      fun _ => inBraces_pure rfl

theorem inBraces_skipSemicolons : InBraces (fun _ => 0) skipSemicolons skipSemicolons := by
  refine InBracesIf.bind (k := fun _ => 0) (InBraces.many ?_) fun _ => inBraces_pure rfl
  refine (inBraces_tryMark (by nofun)).bind fun found => ?_
  cases found with
  | true => exact inBraces_pure rfl
  | false => exact inBraces_pure rfl

theorem inBraces_startsVerb {f g : Bool → Parser β} (yes : InBraces m (f true) (g true))
    (no : InBraces m (f false) (g false)) :
    InBraces m (lexeme >>= fun here => f (startsVerb here))
      (lexeme >>= fun here => g (startsVerb here)) := by
  refine inBraces_stopping (fun here => ?_) rfl no
  cases startsVerb here with
  | true => exact yes.at
  | false => exact no.at

theorem inBraces_nextProperty (h : level.InBraces) (subject : Term) :
    InBraces perItem (nextProperty level subject) (nextProperty level subject) := by
  refine inBraces_isAt (by nofun) ?_ (inBraces_pure rfl)
  exact inBraces_skipSemicolons.at.bind fun _ =>
    inBraces_startsVerb (f := fun found => if found then some <$> property level subject else pure none)
      (g := fun found => if found then some <$> property level subject else pure none)
      (inBraces_property h subject).item (inBraces_pure rfl)

theorem inBraces_propertyList (h : level.InBraces) (subject : Term) (required : Bool) :
    InBraces (fun _ => 0) (propertyList level subject required)
      (propertyList level subject required) := by
  refine inBraces_startsVerb (f := fun found => if found then _ else _)
    (g := fun found => if found then _ else _) ?_ ?_
  · exact (inBraces_property h subject).free.bind fun _ =>
      (inBraces_nextProperty h subject).many.bind fun _ => inBraces_pure rfl
  · cases required with
    | true => exact inBraces_expected _ _
    | false => exact inBraces_pure rfl

theorem inBraces_bracketedBlankNode (h : level.InBraces) :
    InBraces (fun _ => 1) (bracketedBlankNode level) (bracketedBlankNode level) :=
  inBraces_position fun start => inBraces_skip.bind fun _ =>
    (inBraces_freshBlankNode start).bind fun node =>
      (inBraces_tryMark (by nofun)).bind fun found => by
        cases found with
        | true => exact inBraces_position fun _ => inBraces_pure rfl
        | false =>
            exact (inBraces_propertyList h node true).bind fun _ => (inBraces_mark _ _).bind
              fun _ => inBraces_position fun _ => inBraces_pure rfl

theorem inBraces_triplesSameSubject (h : level.InBraces) :
    InBraces (fun _ => 1) (triplesSameSubject level) (triplesSameSubject level) := by
  have plain : InBraces (fun _ => 1)
      (varOrTerm level.namespaces >>= fun subject => propertyList level subject true)
      (varOrTerm level.namespaces >>= fun subject => propertyList level subject true) :=
    inBraces_varOrTerm.bind fun subject => inBraces_propertyList h subject true
  refine inBraces_stopping (fun here => ?_) rfl plain
  split
  · exact inBraces_fail _ _
  · refine inBraces_following rfl fun next => ?_
    exact h.blankNode.at.bind fun _ => (inBraces_propertyList h _ _).bind
      fun _ => inBraces_pure rfl
  · exact plain.at

/-! ## Tables -/

/-- There is no cell at the end. -/
theorem inBraces_dataValueEnded (p : Parser (Option (Option Term))) :
    InBracesIf (·.token.lexeme = .endOfInput) perItem p (some <$> dataValue ns) := by
  intro c d _ ended x d' read
  rw [← bind_pure_comp] at read
  obtain ⟨cell, d₁, first, _⟩ := bind_eq_ok.mp read
  obtain ⟨here, d₂, look, rest⟩ := bind_eq_ok.mp first
  obtain ⟨rfl, rfl⟩ := Prod.mk.inj (Except.ok.inj look)
  rw [ended] at rest
  cases rest

/-- Cells up to a closing mark. Where the mark is a closing brace, the reader of cells does not stop
at the end but fails there. -/
theorem inBraces_valuesUpTo (closing : Symbol) :
    InBraces (fun _ => 0) (valuesUpTo ns closing) (valuesUpTo ns closing) := by
  refine InBracesIf.bind (k := fun _ => 0) (InBraces.many ?_) fun _ =>
    inBraces_skip.bind fun _ => inBraces_pure rfl
  refine inBraces_opening (f := fun here => if here == .symbol closing then pure none
      else some <$> dataValue ns) (g := fun here => if here == .symbol closing then pure none
      else some <$> dataValue ns) (fun here => ?_) fun p => ?_
  · cases here == .symbol closing with
    | true => exact inBraces_pure rfl
    | false => exact InBraces.at inBraces_dataValue.item
  · exact inBraces_dataValueEnded p

theorem inBraces_row (columns : Nat) : InBraces perItem (row ns columns) (row ns columns) :=
  (inBraces_tryMark (by nofun)).bind fun found => by
    cases found with
    | true =>
        refine (inBraces_valuesUpTo .rparen).bind fun cells => ?_
        by_cases same : cells.length = columns
        · rw [if_pos same]
          exact inBraces_pure rfl
        · rw [if_neg same]
          exact inBraces_fail _ _
    | false => exact inBraces_pure rfl

theorem inBraces_column? : InBraces perItem column? column? := by
  refine inBraces_stopping (fun here => ?_) rfl (inBraces_pure rfl)
  split
  · exact inBraces_pass.bind fun _ => inBraces_pure rfl
  · exact inBraces_pure rfl

theorem inBraces_inlineData : InBraces (fun _ => 1) (inlineData ns) (inlineData ns) :=
  inBraces_position fun start => by
    refine inBraces_opening (fun here => ?_) fun p => inBraces_expected p _
    split
    · exact inBraces_pass.bind fun _ => (inBraces_mark _ _).free.bind fun _ =>
        (inBraces_valuesUpTo .rbrace).bind fun _ => inBraces_position fun _ => inBraces_pure rfl
    · exact inBraces_pass.bind fun _ => inBraces_column?.many.bind fun _ =>
        (inBraces_mark _ _).free.bind fun _ => (inBraces_mark _ _).free.bind fun _ =>
          (inBraces_row _).many.bind fun _ => (inBraces_mark _ _).free.bind fun _ =>
            inBraces_position fun _ => inBraces_pure rfl
    · exact inBraces_expected _ _

end SparqlMetrics.Grammar
