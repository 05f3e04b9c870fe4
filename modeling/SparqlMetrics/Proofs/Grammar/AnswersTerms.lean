import SparqlMetrics.Grammar.Path
import SparqlMetrics.Proofs.Grammar.Answers

/-!
# What readers of terms and paths answer

The readers of terms and paths account for their answers. A name without a declaration and a
reference without a base are met in one place, where the IRI of a token is looked up; every other
error is an expectation.
-/
namespace SparqlMetrics

namespace TextClass

variable {T : TextClass} {ns : Namespaces}

theorem holds_nil : T.Holds [] := T.constant ""

theorem holds_resolve? (keeps : T.Keeps ns.strings) {reference iri : Text}
    (h : T.Holds reference) (found : ns.resolve? reference = some iri) : T.Holds iri := by
  unfold Namespaces.resolve? at found
  split at found
  · exact Option.some.inj found ▸ h
  · obtain ⟨base, isBase, rfl⟩ := Option.map_eq_some_iff.mp found
    refine T.resolve (keeps base (List.mem_append_right _ ?_)) h
    rw [isBase, Option.toList_some]
    exact List.mem_singleton_self base

theorem holds_expand? (keeps : T.Keeps ns.strings) {label localName iri : Text}
    (h : T.Holds localName) (found : ns.expand? label localName = some iri) : T.Holds iri := by
  obtain ⟨space, declared, rfl⟩ := Option.map_eq_some_iff.mp found
  obtain ⟨entry, entryFound, rfl⟩ := Option.map_eq_some_iff.mp declared
  refine T.append (keeps entry.2 (List.mem_append_left _ ?_)) h
  exact List.mem_flatMap.mpr ⟨entry, List.mem_of_find?_eq_some entryFound, by simp⟩

end TextClass

theorem Namespaces.resolve?_eq_none {ns : Namespaces} {reference : Text}
    (h : ns.resolve? reference = none) : Iri.hasScheme reference = false ∧ ns.base = none := by
  unfold Namespaces.resolve? at h
  split at h
  · cases h
  · next relative => exact ⟨Bool.not_eq_true _ ▸ relative, Option.map_eq_none_iff.mp h⟩

namespace Grammar

open SparqlMetrics.Parser

variable {S : Scope}

theorem answers_resolvedIri : Answers S (resolvedIri S.namespaces) S.texts.Holds := by
  intro c covers _
  have keeps := covers.within.token
  rw [resolvedIri, TwoRuns.bind_eq_of_ok (show token c = .ok (c.token, c) from rfl)]
  cases here : c.token.lexeme with
  | iri reference =>
      rw [here] at keeps
      dsimp only
      cases found : S.namespaces.resolve? reference with
      | some iri =>
          have holds := TextClass.keeps_singleton.mp keeps
          exact ⟨TextClass.holds_resolve? S.keeps holds found, .refl c⟩
      | none =>
          obtain ⟨relative, noBase⟩ := Namespaces.resolve?_eq_none found
          exact ⟨c, .refl c, .missingBase here relative noBase⟩
  | prefixedName label localName =>
      rw [here] at keeps
      dsimp only
      cases found : S.namespaces.expand? label localName with
      | some iri =>
          exact ⟨TextClass.holds_expand? S.keeps (keeps localName (by simp [Lexeme.strings])) found,
            .refl c⟩
      | none =>
          exact ⟨c, .refl c, .undeclaredPrefix here (Option.map_eq_none_iff.mp found)⟩
  | _ => exact (answers_expected (A := fun _ => True) .iri) c covers trivial

/-- An IRI is looked up where a reference or a name stands. -/
theorem stays_of_resolvedIri {ns : Namespaces} {c c' : Cursor} {iri : Text}
    (read : resolvedIri ns c = .ok (iri, c')) :
    c' = c ∧ ((∃ reference, c.token.lexeme = .iri reference) ∨
      ∃ label name, c.token.lexeme = .prefixedName label name) := by
  obtain ⟨t, c₁, here, rest⟩ := bind_eq_ok.mp read
  obtain ⟨rfl, rfl⟩ : c.token = t ∧ c = c₁ := by simpa [token] using here
  cases here : c.token.lexeme with
  | iri reference =>
      rw [here] at rest
      cases found : ns.resolve? reference with
      | some other =>
          simp only [found] at rest
          exact ⟨(Prod.mk.inj (Except.ok.inj rest)).2.symm, .inl ⟨reference, rfl⟩⟩
      | none =>
          simp only [found] at rest
          cases rest
  | prefixedName label name =>
      rw [here] at rest
      cases found : ns.expand? label name with
      | some other =>
          simp only [found] at rest
          exact ⟨(Prod.mk.inj (Except.ok.inj rest)).2.symm, .inr ⟨label, name, rfl⟩⟩
      | none =>
          simp only [found] at rest
          cases rest
  | _ =>
      rw [here] at rest
      cases rest

/-- To look up an IRI and pass over its token. -/
theorem takes_iri {β : Type} {Q : β → Prop} {f : Text → Parser β}
    (hf : ∀ iri, S.texts.Holds iri → Answers S (f iri) Q) :
    Takes S (fun _ => True) (resolvedIri S.namespaces >>= fun iri => skip >>= fun _ => f iri) Q := by
  have behind : ∀ (c : Cursor) {iri : Text}, resolvedIri S.namespaces c = .ok (iri, c) →
      S.texts.Holds iri → Takes S (· = c) (skip >>= fun _ => f iri) Q := fun c _ read holds => by
    have here : c.token.lexeme.isPassable = true ∧ c.token.lexeme.isTerminal = false := by
      rcases (stays_of_resolvedIri read).2 with ⟨_, same⟩ | ⟨_, _, same⟩
      · exact same ▸ ⟨rfl, rfl⟩
      · exact same ▸ ⟨rfl, rfl⟩
    refine Takes.bind ?_ fun _ (_ : True) => hf _ holds
    exact (takes_skip here.1 here.2).weaken fun _ same => by rw [same]
  constructor
  · refine answers_resolvedIri.bindIf (B := fun iri d => resolvedIri S.namespaces d = .ok (iri, d))
      (fun c iri c' _ _ read => ?_) fun iri holds d covers stays =>
        (behind d stays holds).answers d covers rfl
    obtain rfl := (stays_of_resolvedIri read).1
    exact read
  · intro c y c' covers _ read
    obtain ⟨iri, c₁, first, rest⟩ := bind_eq_ok.mp read
    have holds := (answers_resolvedIri.of_ok covers trivial first).1
    obtain rfl := (stays_of_resolvedIri first).1
    exact (behind _ first holds).shorter _ y c' covers rfl rest

theorem takes_iriTerm :
    Takes S (fun _ => True) (iriTerm S.namespaces) S.checks.term :=
  takes_drop fun _ => takes_iri fun _ holds =>
    answers_pure ⟨TextClass.keeps_singleton.mpr holds, Term.comesFrom_of_isBlank rfl⟩

theorem answers_iriTerm : Answers S (iriTerm S.namespaces) S.checks.term :=
  takes_iriTerm.answers

def HoldsLiteral (T : TextClass) (l : Literal) : Prop := T.Keeps (Node.literal l).strings

theorem answers_stringTail {value : Text} (hv : S.texts.Holds value) :
    Answers S (stringTail S.namespaces value) (HoldsLiteral S.texts) :=
  answers_lexeme fun here keeps => by
    split
    · exact (answers_skip rfl).bind fun _ _ =>
        answers_pure (TextClass.keeps_cons hv keeps)
    · exact (answers_skip rfl).bind fun _ _ => Takes.answers <| takes_iri fun _ holds =>
        answers_pure (TextClass.keeps_cons hv (TextClass.keeps_singleton.mpr holds))
    · exact answers_pure (TextClass.keeps_singleton.mpr hv)

theorem answers_numberSign : Answers S numberSign S.texts.Holds :=
  answers_lexeme fun here _ => by
    split
    · next sign =>
      have isMark : ∃ s, here = .symbol s ∧ s ≠ .lbracket := by
        simp only [Bool.or_eq_true, beq_iff_eq] at sign
        rcases sign with same | same
        · exact ⟨_, same, nofun⟩
        · exact ⟨_, same, nofun⟩
      obtain ⟨s, rfl, other⟩ := isMark
      refine .followingLexeme fun _ => ?_
      split
      · exact (answers_skip (Lexeme.isPassable_symbol other)).bind fun _ _ =>
          answers_pure (S.texts.constant _)
      · exact answers_expected _
    · exact answers_pure TextClass.holds_nil

theorem holds_numberDatatype (T : TextClass) (kind : NumberKind) : T.Holds (numberDatatype kind) := by
  cases kind <;> exact T.append (T.constant _) (T.constant _)

theorem holdsLiteral_boolean (T : TextClass) (value : String) :
    HoldsLiteral T (booleanLiteral value) :=
  TextClass.keeps_cons (T.constant _)
    (TextClass.keeps_singleton.mpr (T.append (T.constant _) (T.constant _)))

theorem takes_literalTerm :
    Takes S (fun _ => True) (literalTerm S.namespaces) S.checks.term :=
  takes_drop fun start => answers_numberSign.takes fun sign hsign => by
    have finish : ∀ l : Literal, HoldsLiteral S.texts l →
        Answers S (do pure ⟨.literal l, ⟨start, ← position⟩⟩) S.checks.term :=
      fun l hl => .position fun _ => answers_pure ⟨hl, Term.comesFrom_of_isBlank rfl⟩
    refine takes_lexeme fun here keeps => ?_
    split
    · exact (takes_skip rfl rfl).bind fun _ _ =>
        (answers_stringTail (TextClass.keeps_singleton.mp keeps)).bind fun l hl => finish l hl
    · have value := S.texts.append hsign (TextClass.keeps_singleton.mp keeps)
      exact (takes_skip rfl rfl).bind fun _ _ => finish _
        (TextClass.keeps_cons value (TextClass.keeps_singleton.mpr (holds_numberDatatype _ _)))
    · exact (takes_skipKeyword rfl (by nofun)).bind fun _ _ => finish _ (holdsLiteral_boolean _ _)
    · exact (takes_skipKeyword rfl (by nofun)).bind fun _ _ => finish _ (holdsLiteral_boolean _ _)
    · exact (takes_expected _).bind finish

theorem answers_literalTerm : Answers S (literalTerm S.namespaces) S.checks.term :=
  takes_literalTerm.answers

theorem answers_varOrTerm : Answers S (varOrTerm S.namespaces) S.checks.term :=
  answers_of_at fun here => .token fun t same keeps labels => by
    rw [same]
    split
    · exact (answers_skip rfl).bind fun _ _ =>
        answers_pure ⟨keeps, Term.comesFrom_of_isBlank rfl⟩
    · next label =>
      refine (answers_skip rfl).bind fun _ _ => answers_pure ⟨keeps, fun other blank => ?_⟩
      exact ⟨.written label, labels label same, Node.blank.inj blank⟩
    · exact answers_iriTerm.at
    · exact answers_iriTerm.at
    · exact answers_literalTerm.at
    · exact answers_literalTerm.at
    · exact answers_literalTerm.at
    · exact answers_literalTerm.at
    · exact answers_literalTerm.at
    · exact answers_literalTerm.at
    · exact answers_expected _

theorem answers_varOrIri : Answers S (varOrIri S.namespaces) S.checks.term :=
  answers_lexeme fun here _ => by
    split
    · exact answers_varOrTerm.at
    · exact answers_iriTerm.at
    · exact answers_iriTerm.at
    · exact answers_expected _

/-- To open brackets and name their blank node, which comes from them. -/
theorem answersAt_brackets {β : Type} {Q : β → Prop} {f : Term → Parser β}
    (hf : ∀ t, S.checks.term t → Answers S (f t) Q) :
    AnswersAt S (.symbol .lbracket)
      (position >>= fun start => skip >>= fun _ => freshBlankNode start >>= f) Q := by
  intro c covers here
  have opened : (c.token.start, .brackets c.blankCount) ∈ S.sources := by
    apply covers.sources.subset
    rw [Cursor.blankSources_brackets covers.within.terminal here]
    exact List.mem_cons_self
  have passes := Cursor.passes_brackets covers.within.terminal here
  have named :
      S.checks.term ⟨.blank (bracketLabel c.blankCount), ⟨c.token.start, c.token.start⟩⟩ := by
    constructor
    · exact TextClass.keeps_singleton.mpr (S.texts.append (S.texts.constant _) (S.texts.ofNat _))
    · intro label blank
      exact ⟨.brackets c.blankCount, opened, Node.blank.inj blank⟩
  exact (hf _ named _ (covers.passes passes) trivial).behind passes

/-- A value of a table takes a token, also where it is undefined. -/
theorem takes_dataValue :
    Takes S (fun _ => True) (dataValue S.namespaces) (IfSome S.checks.term) :=
  takes_lexeme fun here _ => by
    split
    · exact (takes_skipKeyword rfl (by nofun)).bind fun _ _ => answers_none
    · exact takes_iriTerm.at.some
    · exact takes_iriTerm.at.some
    · exact takes_literalTerm.at.some
    · exact takes_literalTerm.at.some
    · exact takes_literalTerm.at.some
    · exact takes_literalTerm.at.some
    · exact takes_literalTerm.at.some
    · exact takes_literalTerm.at.some
    · exact takes_expected _

/-! ## Paths -/

/-- A path whose texts are of a class; a single step also passes as a term. -/
structure HoldsPath (S : Scope) (p : Path) : Prop where
  texts : S.texts.Keeps p.strings
  step : ∀ t, p = .step t → S.checks.term t

theorem holdsPath_step {t : Term} (h : S.checks.term t) : HoldsPath S (.step t) :=
  ⟨h.1, fun _ same => Path.step.inj same ▸ h⟩

/-- Readers one level further in that account for their answers. -/
structure Level.Answers (S : Scope) (level : Level) : Prop where
  namespaces : level.namespaces = S.namespaces
  operand : Parser.Answers S level.operand (·.Everywhere S.checks)
  group : ∀ kind : GroupKind, kind.Everywhere S.checks →
    Parser.Answers S (level.group kind) (·.Everywhere S.checks)
  pathGroup : AnswersAt S (.symbol .lparen) level.pathGroup (HoldsPath S)
  blankNode : AnswersAt S (.symbol .lbracket) level.blankNode fun r =>
    S.checks.term r.1 ∧ ∀ e ∈ r.2, e.Everywhere S.checks

variable {level : Level}

theorem isPassable_of_isTypeWord {here : Lexeme} (h : here.isTypeWord = true) :
    here.isPassable = true := by
  cases here with
  | keyword k word => cases h
  | symbol s => cases h
  | _ => rfl

theorem answers_iriStep : Answers S (iriStep S.namespaces) (HoldsPath S) :=
  answers_token fun t _ => by
    split
    · next typeWord =>
      exact (answers_skip (isPassable_of_isTypeWord typeWord)).bind fun _ _ =>
        answers_pure (holdsPath_step
          ⟨TextClass.keeps_singleton.mpr (S.texts.constant _), Term.comesFrom_of_isBlank rfl⟩)
    · exact answers_iriTerm.at.map fun _ ht => holdsPath_step ht

theorem answers_setMember : Answers S (setMember S.namespaces) (HoldsPath S) :=
  (answers_tryMark (by nofun)).bind fun _ _ => by
    split
    · exact answers_iriStep.map fun _ hp => ⟨hp.texts, nofun⟩
    · exact answers_iriStep

/-- A join keeps what its parts give it. -/
theorem answers_joinAfter {s : Symbol} (other : s ≠ .lbracket) {how : PathJoin}
    {part : Parser Path} (hpart : Answers S part (HoldsPath S)) (left : Path)
    (hl : HoldsPath S left) : Answers S (joinAfter s how part left) (IfSome (HoldsPath S)) :=
  (answers_tryMark other).bind fun _ _ => by
    split
    · exact hpart.bind fun right hr =>
        answers_pure (ifSome_some ⟨TextClass.keeps_append.mpr ⟨hl.texts, hr.texts⟩, nofun⟩)
    · exact answers_none

theorem answers_setMembers : Answers S (setMembers S.namespaces) (HoldsPath S) :=
  answers_isAt
    (answers_pure (holdsPath_step
      ⟨TextClass.keeps_singleton.mpr TextClass.holds_nil, Term.comesFrom_of_isBlank rfl⟩))
    (answers_setMember.bind fun _ hp =>
      answers_repeatFrom (answers_joinAfter (by nofun) answers_setMember) hp)

theorem answers_negatedSet : Answers S (negatedSet S.namespaces) (HoldsPath S) :=
  (answers_tryMark (by nofun)).bind fun _ _ => by
    split
    · exact answers_setMembers.bind fun _ hp => (answers_mark (by nofun) _).bind fun _ _ =>
        answers_pure ⟨hp.texts, nofun⟩
    · exact answers_setMember.map fun _ hp => ⟨hp.texts, nofun⟩

theorem answers_pathPrimary (h : level.Answers S) :
    Answers S (pathPrimary level) (HoldsPath S) := by
  unfold pathPrimary
  rw [h.namespaces]
  refine answers_lexeme fun here _ => ?_
  split
  · exact (answers_skip rfl).bind fun _ _ => answers_negatedSet
  · exact h.pathGroup
  · exact answers_iriStep.at
  · exact answers_iriStep.at
  · split
    · exact answers_iriStep.at
    · exact answers_expected _

theorem isPassable_of_repetition? {here : Lexeme} {times : Repetition}
    (h : repetition? here = some times) : here.isPassable = true := by
  cases here with
  | keyword k word => cases h
  | symbol s =>
      refine Lexeme.isPassable_symbol ?_
      rintro rfl
      cases h
  | _ => rfl

theorem answers_pathElement (h : level.Answers S) :
    Answers S (pathElement level) (HoldsPath S) :=
  (answers_pathPrimary h).bind fun p hp => answers_lexeme fun here _ => by
    split
    · next mark =>
      exact (answers_skip (isPassable_of_repetition? mark)).bind fun _ _ =>
        answers_pure ⟨hp.texts, nofun⟩
    · exact answers_pure hp

theorem answers_pathPart (h : level.Answers S) : Answers S (pathPart level) (HoldsPath S) :=
  (answers_tryMark (by nofun)).bind fun _ _ => by
    split
    · exact (answers_pathElement h).map fun _ hp => ⟨hp.texts, nofun⟩
    · exact answers_pathElement h

theorem answers_pathSequence (h : level.Answers S) :
    Answers S (pathSequence level) (HoldsPath S) :=
  (answers_pathPart h).bind fun _ hp =>
    answers_repeatFrom (answers_joinAfter (by nofun) (answers_pathPart h)) hp

theorem answers_path (h : level.Answers S) : Answers S (path level) (HoldsPath S) :=
  (answers_pathSequence h).bind fun _ hp =>
    answers_repeatFrom (answers_joinAfter (by nofun) (answers_pathSequence h)) hp

theorem answersAt_bracketedPath (h : level.Answers S) :
    AnswersAt S (.symbol .lparen) (bracketedPath level) (HoldsPath S) :=
  (answers_skip rfl).bind fun _ _ => (answers_path h).bind fun _ hp =>
    (answers_mark (by nofun) _).bind fun _ _ => answers_pure hp

end Grammar

end SparqlMetrics
