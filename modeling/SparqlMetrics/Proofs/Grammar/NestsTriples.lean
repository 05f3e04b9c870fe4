import SparqlMetrics.Proofs.Grammar.AnswersTriples
import SparqlMetrics.Proofs.Grammar.Nests

/-!
# How braces nest in terms, paths, triples and tables

A term passes over no brace. The readers of paths and triples pass over braces that pair up when
those one level further in do, and a table closes the braces that it opens.
-/
namespace SparqlMetrics.Grammar

open SparqlMetrics.Parser

variable {β : Type} {A : Cursor → Prop} {ns : Namespaces} {level : Level}

/-! ## Terms -/

theorem nests_resolvedIri : NestsIf A (resolvedIri ns) :=
  LeavesIf.at <| leaves_token fun t => by
    split
    · split
      · exact nests_pure
      · exact fun _ _ _ missing => nomatch missing
    · split
      · exact nests_pure
      · exact fun _ _ _ missing => nomatch missing
    · exact leaves_expected (by nofun)

/-- To look up an IRI and pass over its token. -/
theorem nests_iri {f : Text → Parser β} (hf : ∀ iri, Nests (f iri)) :
    NestsIf A (resolvedIri ns >>= fun iri => skip >>= fun _ => f iri) := by
  refine nests_resolvedIri.bindIf (B := fun _ c => c.token.lexeme.isInner = true)
    (fun c iri c' _ _ read => ?_) fun iri => nests_pass.bind fun _ => hf iri
  obtain ⟨rfl, ⟨_, same⟩ | ⟨_, _, same⟩⟩ := stays_of_resolvedIri read
  · exact same ▸ rfl
  · exact same ▸ rfl

theorem nests_iriTerm : Nests (iriTerm ns) := leaves_token fun _ => nests_iri fun _ => nests_pure

theorem nests_stringTail (value : Text) : Nests (stringTail ns value) :=
  leaves_lexeme fun here => by
    split
    · exact (nests_skip rfl).bind fun _ => nests_pure
    · exact (nests_skip rfl).bind fun _ => nests_iri fun _ => nests_pure
    · exact nests_pure

theorem isInner_of_isSumSign {here : Lexeme} (h : isSumSign here = true) : here.isInner = true := by
  obtain same | same := Bool.or_eq_true_iff.mp h
  · exact beq_iff_eq.mp same ▸ rfl
  · exact beq_iff_eq.mp same ▸ rfl

theorem nests_numberSign : Nests numberSign :=
  leaves_lexeme fun here => by
    split
    · next sign =>
      have inner : here.isInner = true :=
        isInner_of_isSumSign (by rw [isSumSign, Bool.or_comm]; exact sign)
      refine .followingLexeme fun _ => ?_
      split
      · exact (nests_skip inner).bind fun _ => nests_pure
      · exact leaves_expected (by decide)
    · exact nests_pure

theorem nests_literalTerm : Nests (literalTerm ns) :=
  .position fun start => nests_numberSign.bind fun sign => by
    have finish : ∀ l : Literal, Nests (do pure (⟨.literal l, ⟨start, ← position⟩⟩ : Term)) :=
      fun _ => .position fun _ => nests_pure
    refine leaves_lexeme fun here => ?_
    split
    · exact (nests_skip rfl).bind fun _ => (nests_stringTail _).bind finish
    · exact (nests_skip rfl).bind fun _ => finish _
    · exact (nests_skip rfl).bind fun _ => finish _
    · exact (nests_skip rfl).bind fun _ => finish _
    · exact NestsIf.bind (leaves_expected (by nofun)) finish

theorem nests_varOrTerm : Nests (varOrTerm ns) :=
  leaves_token fun t => by
    split
    · next same => exact (nests_skip (same ▸ rfl)).bind fun _ => nests_pure
    · next same => exact (nests_skip (same ▸ rfl)).bind fun _ => nests_pure
    · exact nests_iriTerm.at
    · exact nests_iriTerm.at
    · exact nests_literalTerm.at
    · exact nests_literalTerm.at
    · exact nests_literalTerm.at
    · exact nests_literalTerm.at
    · exact nests_literalTerm.at
    · exact nests_literalTerm.at
    · exact leaves_expected (by nofun)

theorem nests_varOrIri : Nests (varOrIri ns) :=
  leaves_lexeme fun here => by
    split
    · exact nests_varOrTerm.at
    · exact nests_iriTerm.at
    · exact nests_iriTerm.at
    · exact leaves_expected (by nofun)

theorem nests_freshBlankNode (start : Nat) : NestsIf A (freshBlankNode start) :=
  fun _ _ _ => ⟨[], ⟨rfl, rfl⟩, Token.balanced_nil⟩

theorem nests_dataValue : Nests (dataValue ns) :=
  leaves_lexeme fun here => by
    split
    · exact (nests_skip rfl).bind fun _ => nests_pure
    · exact nests_iriTerm.at.map some
    · exact nests_iriTerm.at.map some
    · exact nests_literalTerm.at.map some
    · exact nests_literalTerm.at.map some
    · exact nests_literalTerm.at.map some
    · exact nests_literalTerm.at.map some
    · exact nests_literalTerm.at.map some
    · exact nests_literalTerm.at.map some
    · exact leaves_expected (by nofun)

/-! ## Paths -/

/-- Readers one level further in that pass over braces that pair up. -/
structure Level.Nests (level : Level) : Prop where
  operand : Parser.Nests level.operand
  group : ∀ kind, Parser.Nests (level.group kind)
  pathGroup : NestsAt (.symbol .lparen) level.pathGroup
  blankNode : NestsAt (.symbol .lbracket) level.blankNode

theorem isInner_of_isTypeWord {here : Lexeme} (h : here.isTypeWord = true) :
    here.isInner = true := by
  cases here with
  | identifier => rfl
  | _ => cases h

theorem nests_iriStep : Nests (iriStep ns) :=
  leaves_token fun t => by
    split
    · next typeWord =>
      exact (nests_skip (isInner_of_isTypeWord typeWord)).bind fun _ => nests_pure
    · exact nests_iriTerm.at.map _

theorem nests_setMember : Nests (setMember ns) :=
  (nests_tryMark rfl).bind fun _ => by
    split
    · exact nests_iriStep.map _
    · exact nests_iriStep

theorem nests_joinAfter {s : Symbol} (inner : (Lexeme.symbol s).isInner = true) {how : PathJoin}
    {part : Parser Path} (hpart : Nests part) (left : Path) :
    Nests (joinAfter s how part left) :=
  (nests_tryMark inner).bind fun _ => by
    split
    · exact hpart.bind fun _ => nests_pure
    · exact nests_pure

theorem nests_setMembers : Nests (setMembers ns) :=
  leaves_isAt nests_pure
    (nests_setMember.bind fun _ => nests_repeatFrom (nests_joinAfter rfl nests_setMember))

theorem nests_negatedSet : Nests (negatedSet ns) :=
  (nests_tryMark rfl).bind fun _ => by
    split
    · exact nests_setMembers.bind fun _ => (nests_mark rfl (by nofun)).bind fun _ => nests_pure
    · exact nests_setMember.map _

theorem nests_pathPrimary (h : level.Nests) : Nests (pathPrimary level) :=
  leaves_lexeme fun here => by
    split
    · exact (nests_skip rfl).bind fun _ => nests_negatedSet
    · exact h.pathGroup
    · exact nests_iriStep.at
    · exact nests_iriStep.at
    · split
      · exact nests_iriStep.at
      · exact leaves_expected (by nofun)

theorem isInner_of_repetition? {here : Lexeme} {times : Repetition}
    (h : repetition? here = some times) : here.isInner = true := by
  unfold repetition? at h
  split at h
  · rfl
  · rfl
  · rfl
  · cases h

theorem nests_pathElement (h : level.Nests) : Nests (pathElement level) :=
  (nests_pathPrimary h).bind fun _ => leaves_lexeme fun here => by
    split
    · next mark => exact (nests_skip (isInner_of_repetition? mark)).bind fun _ => nests_pure
    · exact nests_pure

theorem nests_pathPart (h : level.Nests) : Nests (pathPart level) :=
  (nests_tryMark rfl).bind fun _ => by
    split
    · exact (nests_pathElement h).map _
    · exact nests_pathElement h

theorem nests_pathSequence (h : level.Nests) : Nests (pathSequence level) :=
  (nests_pathPart h).bind fun _ => nests_repeatFrom (nests_joinAfter rfl (nests_pathPart h))

theorem nests_path (h : level.Nests) : Nests (path level) :=
  (nests_pathSequence h).bind fun _ =>
    nests_repeatFrom (nests_joinAfter rfl (nests_pathSequence h))

theorem nestsAt_bracketedPath (h : level.Nests) :
    NestsAt (.symbol .lparen) (bracketedPath level) :=
  (nests_skip rfl).bind fun _ => (nests_path h).bind fun _ =>
    (nests_mark rfl (by nofun)).bind fun _ => nests_pure

theorem nests_verb (h : level.Nests) : Nests (verb level) :=
  leaves_lexeme fun here => by
    split
    · exact nests_varOrTerm.at.map _
    · exact (nests_path h).at.map _

/-! ## Triples -/

theorem nests_object (h : level.Nests) : Nests (object level) :=
  leaves_lexeme fun here => by
    split
    · exact h.blankNode
    · exact leaves_fail (by nofun)
    · exact nests_varOrTerm.at.bind fun _ => nests_pure

theorem nests_objectElements (h : level.Nests) (subject : Term) (v : Verb) :
    Nests (objectElements level subject v) :=
  (nests_object h).bind fun _ => .position fun _ => nests_pure

theorem nests_property (h : level.Nests) (subject : Term) : Nests (property level subject) :=
  (nests_verb h).bind fun v => (nests_objectElements h subject v).bind fun _ => by
    refine (nests_many ((nests_tryMark rfl).bind fun _ => ?_)).bind fun _ => nests_pure
    split
    · exact (nests_objectElements h subject v).map _
    · exact nests_pure

theorem nests_skipSemicolons : Nests skipSemicolons := by
  refine (nests_many ((nests_tryMark rfl).bind fun _ => ?_)).bind fun _ => nests_pure
  split
  · exact nests_pure
  · exact nests_pure

theorem nests_nextProperty (h : level.Nests) (subject : Term) :
    Nests (nextProperty level subject) := by
  refine leaves_isAt (nests_skipSemicolons.at.bind fun _ => ?_) nests_pure
  refine leaves_lexeme fun here => ?_
  split
  · exact (nests_property h subject).at.map _
  · exact nests_pure

theorem nests_propertyList (h : level.Nests) (subject : Term) (required : Bool) :
    Nests (propertyList level subject required) :=
  leaves_lexeme fun here => by
    split
    · exact (nests_property h subject).at.bind fun _ =>
        (nests_many (nests_nextProperty h subject)).bind fun _ => nests_pure
    split
    · exact leaves_expected (by nofun)
    · exact nests_pure

theorem nestsAt_bracketedBlankNode (h : level.Nests) :
    NestsAt (.symbol .lbracket) (bracketedBlankNode level) :=
  .position fun start => (nests_skip rfl).bind fun _ => (nests_freshBlankNode start).bind fun _ =>
    (nests_tryMark rfl).bind fun _ => by
      split
      · exact .position fun _ => nests_pure
      · exact (nests_propertyList h _ true).bind fun _ => (nests_mark rfl (by nofun)).bind fun _ =>
          .position fun _ => nests_pure

theorem nests_triplesSameSubject (h : level.Nests) : Nests (triplesSameSubject level) :=
  leaves_lexeme fun here => by
    split
    · exact leaves_fail (by nofun)
    · exact .followingLexeme fun _ => h.blankNode.bind fun _ =>
        (nests_propertyList h _ _).bind fun _ => nests_pure
    · exact nests_varOrTerm.at.bind fun _ => nests_propertyList h _ true

/-! ## Tables -/

theorem nests_values {closing : Symbol} : Nests (many (nextValue ns closing)) :=
  nests_many (leaves_isAt nests_pure (nests_dataValue.map some))

/-- The loop over the values of a table stops at the closing mark. -/
theorem atClosing_of_many {closing : Symbol} {cells : List (Option Term)} {c c' : Cursor}
    (last : c.last.lexeme.isTerminal = true)
    (read : many (nextValue ns closing) c = .ok (cells, c')) :
    c'.token.lexeme = .symbol closing :=
  atClosing_of_values
    (S := ⟨TextClass.all, ns, fun _ _ => trivial, c.blankSources⟩)
    ⟨⟨fun _ _ _ _ => trivial, fun _ _ => trivial, last⟩, List.suffix_rfl⟩ read

theorem nests_valuesUpTo {closing : Symbol} (inner : (Lexeme.symbol closing).isInner = true) :
    Nests (valuesUpTo ns closing) :=
  nests_values.bindIf (B := fun _ c => c.token.lexeme = .symbol closing)
    (fun _ _ _ last _ => atClosing_of_many last) fun _ =>
      (nests_skip inner).bind fun _ => nests_pure

theorem closes_valuesUpTo : Closes (valuesUpTo ns .rbrace) :=
  nests_values.closesIf (B := fun _ c => c.token.lexeme = .symbol .rbrace)
    (fun _ _ _ last => atClosing_of_many last) fun _ => closes_skip.bind fun _ => nests_pure

theorem nests_row (columns : Nat) : Nests (row ns columns) :=
  (nests_tryMark rfl).bind fun _ => by
    split
    · refine (nests_valuesUpTo rfl).bind fun cells => ?_
      split
      · exact nests_pure
      · exact leaves_fail (by nofun)
    · exact nests_pure

theorem nests_column? : Nests column? :=
  leaves_lexeme fun here => by
    split
    · exact (nests_skip rfl).bind fun _ => nests_pure
    · exact nests_pure

theorem nests_inlineData : Nests (inlineData ns) :=
  .position fun start => leaves_lexeme fun here => by
    split
    · exact (nests_skip rfl).bind fun _ => nests_braces (by nofun) fun _ =>
        closes_valuesUpTo.bind fun _ => .position fun _ => nests_pure
    · exact (nests_skip rfl).bind fun _ => (nests_many nests_column?).bind fun _ =>
        (nests_mark rfl (by nofun)).bind fun _ => nests_braces (by nofun) fun _ =>
          (nests_many (nests_row _)).closes fun _ => (closes_mark _).bind fun _ =>
            .position fun _ => nests_pure
    · exact leaves_expected (by nofun)

end SparqlMetrics.Grammar
