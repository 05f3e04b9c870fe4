import SparqlMetrics.Grammar.Unit
import SparqlMetrics.Proofs.Declarations
import SparqlMetrics.Proofs.Grammar.Consumes
import SparqlMetrics.Proofs.Paths.Derivations

/-!
# Soundness of the readers of paths

What a reader of paths returns is the tree of a derivation, and the word that it passes over is the
derived one. There is one lemma for each reader, named for it, in the order of the grammar; the reader
of a bracketed path is taken from the level further in. Main statements: `Grammar.consumes_path`,
`Grammar.derivesGroups_ofAllowance`.
-/
namespace SparqlMetrics

/-- Whether a lexeme that is an IRI in writing stands for one. -/
def Lexeme.Resolves (ns : Namespaces) : Lexeme → Prop
  | .iri reference => (ns.resolve? reference).isSome = true
  | .prefixedName label localName => (ns.expand? label localName).isSome = true
  | _ => True

namespace Grammar

open SparqlMetrics.Parser TwoRuns

variable {ns : Namespaces} {level : Level}

section Steps
variable {c c' : Cursor} {p : Path}

theorem iriStep_typeWord (word : c.token.lexeme.isTypeWord = true) :
    iriStep ns c = .ok (.step ⟨.iri Iri.rdfType, ⟨c.token.start, c.token.stop⟩⟩, c.advance) := by
  have here : token c = .ok (c.token, c) := rfl
  rw [iriStep, bind_eq_of_ok here, if_pos word]
  rfl

/-- Behind a step the cursor is one token further. -/
theorem iriStep_iri {iri : Text} (other : c.token.lexeme.isTypeWord = false)
    (found : resolvedIri ns c = .ok (iri, c)) :
    iriStep ns c = .ok (.step ⟨.iri iri, ⟨c.token.start, c.token.stop⟩⟩, c.advance) := by
  have here : token c = .ok (c.token, c) := rfl
  have term : iriTerm ns c = .ok (⟨.iri iri, ⟨c.token.start, c.token.stop⟩⟩, c.advance) := by
    rw [iriTerm, bind_eq_of_ok here, bind_eq_of_ok found]
    rfl
  rw [iriStep, bind_eq_of_ok here, if_neg (by simp [other]), ← bind_pure_comp, bind_eq_of_ok term]
  rfl

theorem resolvedIri_reference {reference iri : Text} (here : c.token.lexeme = .iri reference)
    (found : ns.resolve? reference = some iri) : resolvedIri ns c = .ok (iri, c) := by
  have token : token c = .ok (c.token, c) := rfl
  rw [resolvedIri, bind_eq_of_ok token, here]
  simp only [found]
  rfl

theorem resolvedIri_name {label localName iri : Text}
    (here : c.token.lexeme = .prefixedName label localName)
    (found : ns.expand? label localName = some iri) : resolvedIri ns c = .ok (iri, c) := by
  have token : token c = .ok (c.token, c) := rfl
  rw [resolvedIri, bind_eq_of_ok token, here]
  simp only [found]
  rfl

/-- A step is read at a token that is one. -/
theorem iriStep_of_isStep (isStep : IsStep ns c.token p) (resolves : c.token.lexeme.Resolves ns) :
    iriStep ns c = .ok (p, c.advance) := by
  generalize here : c.token = t at isStep resolves
  cases isStep with
  | reference =>
      obtain ⟨iri, found⟩ := Option.isSome_iff_exists.mp resolves
      have lexeme := congrArg Token.lexeme here
      rw [iriStep_iri (by rw [lexeme]; rfl) (resolvedIri_reference lexeme found), here, found]
      rfl
  | name =>
      obtain ⟨iri, found⟩ := Option.isSome_iff_exists.mp resolves
      have lexeme := congrArg Token.lexeme here
      rw [iriStep_iri (by rw [lexeme]; rfl) (resolvedIri_name lexeme found), here, found]
      rfl
  | typeWord =>
      have word : c.token.lexeme.isTypeWord = true := by
        rw [here]
        show (Lexeme.identifier (utf8 "a")).isTypeWord = true
        decide
      rw [iriStep_typeWord word, here]

theorem iriStep_error {e : ParseError} (other : c.token.lexeme.isTypeWord = false)
    (failed : resolvedIri ns c = .error e) : iriStep ns c = .error e := by
  have here : token c = .ok (c.token, c) := rfl
  have term : iriTerm ns c = .error e := by
    rw [iriTerm, bind_eq_of_ok here, bind_eq_of_error failed]
  rw [iriStep, bind_eq_of_ok here, if_neg (by simp [other]), ← bind_pure_comp,
    bind_eq_of_error term]

/-- Where a step is read, the token is one. -/
theorem isStep_of_iriStep (read : iriStep ns c = .ok (p, c')) :
    IsStep ns c.token p ∧ c' = c.advance := by
  have token : token c = .ok (c.token, c) := rfl
  have unread : ∀ e : ParseError, c.token.lexeme.isTypeWord = false →
      resolvedIri ns c = .error e → IsStep ns c.token p ∧ c' = c.advance := by
    intro e other failed
    rw [iriStep_error other failed] at read
    cases read
  have resolved : ∀ iri : Text, c.token.lexeme.isTypeWord = false →
      resolvedIri ns c = .ok (iri, c) →
      p = .step ⟨.iri iri, ⟨c.token.start, c.token.stop⟩⟩ ∧ c' = c.advance := by
    intro iri other found
    rw [iriStep_iri other found] at read
    obtain ⟨rfl, rfl⟩ := Prod.mk.inj (Except.ok.inj read)
    exact ⟨rfl, rfl⟩
  cases here : c.token.lexeme with
  | iri reference =>
      have other : c.token.lexeme.isTypeWord = false := by rw [here]; rfl
      have same : c.token = ⟨.iri reference, c.token.start, c.token.stop⟩ := by rw [← here]
      cases found : ns.resolve? reference with
      | some iri =>
          obtain ⟨rfl, rfl⟩ := resolved iri other (resolvedIri_reference here found)
          have isStep := @IsStep.reference ns reference c.token.start c.token.stop
          rw [found, ← same] at isStep
          exact ⟨isStep, rfl⟩
      | none =>
          apply unread _ other
          rw [resolvedIri, bind_eq_of_ok token, here]
          simp only [found]
          rfl
  | prefixedName label localName =>
      have other : c.token.lexeme.isTypeWord = false := by rw [here]; rfl
      have same : c.token = ⟨.prefixedName label localName, c.token.start, c.token.stop⟩ := by
        rw [← here]
      cases found : ns.expand? label localName with
      | some iri =>
          obtain ⟨rfl, rfl⟩ := resolved iri other (resolvedIri_name here found)
          have isStep := @IsStep.name ns label localName c.token.start c.token.stop
          rw [found, ← same] at isStep
          exact ⟨isStep, rfl⟩
      | none =>
          apply unread _ other
          rw [resolvedIri, bind_eq_of_ok token, here]
          simp only [found]
          rfl
  | identifier name =>
      by_cases word : c.token.lexeme.isTypeWord = true
      · rw [iriStep_typeWord word] at read
        obtain ⟨rfl, rfl⟩ := Prod.mk.inj (Except.ok.inj read)
        have isA : name = utf8 "a" := by
          rw [here] at word
          exact (beq_iff_eq.mp word).trans (by decide)
        have same : c.token = ⟨.identifier (utf8 "a"), c.token.start, c.token.stop⟩ := by
          rw [← isA, ← here]
        have isStep := @IsStep.typeWord ns c.token.start c.token.stop
        rw [← same] at isStep
        exact ⟨isStep, rfl⟩
      · apply unread _ (by simpa using word)
        rw [resolvedIri, bind_eq_of_ok token, here]
        rfl
  | _ =>
      apply unread _ (by rw [here]; rfl)
      rw [resolvedIri, bind_eq_of_ok token, here]
      rfl

theorem isTerminal_of_isStep {t : Token} (h : IsStep ns t p) : t.lexeme.isTerminal = false := by
  cases h <;> rfl

end Steps

/-- The mark of a repetition is a symbol. -/
theorem isPathMod_of_repetition? {l : Lexeme} {times : Repetition} (h : repetition? l = some times) :
    ∃ m, l = .symbol m ∧ IsPathMod m times := by
  unfold repetition? at h
  split at h
  · cases h
    exact ⟨.star, rfl, .star⟩
  · cases h
    exact ⟨.plus, rfl, .plus⟩
  · cases h
    exact ⟨.question, rfl, .question⟩
  · cases h

section Soundness

theorem consumes_iriStep : Consumes (iriStep ns) fun w p => ∃ t, w = [t] ∧ IsStep ns t p := by
  intro c p c' last read
  obtain ⟨isStep, rfl⟩ := isStep_of_iriStep read
  exact ⟨[c.token], c.passed_advance last (isTerminal_of_isStep isStep), c.token, rfl, isStep⟩

theorem consumes_setMember : Consumes (setMember ns) (Derives ns .member) := by
  apply consumes_tryMark
  · intro caret isCaret
    apply consumes_iriStep.map
    rintro _ p ⟨t, rfl, isStep⟩
    exact .backward isCaret isStep
  · apply consumes_iriStep.mono
    rintro _ p ⟨t, rfl, isStep⟩
    exact .forward isStep

variable {m : Symbol} {how : PathJoin} {part : Parser Path} {P I : List Token → Path → Prop}

theorem consumes_joinAfter (hp : Consumes part P) {u : List Token} {left : Path}
    (h : ∀ (t : Token) v right, t.lexeme = .symbol m → P v right →
      I (u ++ t :: v) (.join how left right)) :
    Consumes (joinAfter m how part left) (Continues I u) := by
  apply consumes_tryMark
  · intro t same
    apply hp.bind
    intro v right holds
    apply consumes_pure
    rw [List.append_nil]
    exact h t v right same holds
  · exact consumes_pure rfl

/-- Parts joined to the left by a mark. -/
theorem consumes_joined (hp : Consumes part P) (base : ∀ w p, P w p → I w p)
    (step : ∀ u v (t : Token) left right, I u left → t.lexeme = .symbol m → P v right →
      I (u ++ t :: v) (.join how left right)) :
    Consumes (part >>= repeatFrom (joinAfter m how part)) I := by
  apply hp.bind
  intro u first holds
  apply consumes_repeatFrom (I := I)
  · intro u left holds
    exact consumes_joinAfter hp fun t v right same inner => step u v t left right holds same inner
  · exact base u first holds

theorem consumes_setMembers :
    Consumes (setMembers ns) fun w p => w = [] ∧ p = .placeholder ∨ Derives ns .members w p := by
  apply consumes_isAt
  intro t
  split
  · exact (consumes_pure (.inl ⟨rfl, rfl⟩)).at t
  · have members : Consumes _ (Derives ns .members) := consumes_joined consumes_setMember
      (fun _ _ => .oneMember) fun _ _ _ _ _ left bar right => .moreMembers left bar right
    exact (members.mono fun _ _ => .inr).at t

theorem consumes_negatedSet {bang : Token} (isBang : bang.lexeme = .symbol .bang) :
    Consumes (negatedSet ns) fun w => Derives ns .primary (bang :: w) := by
  apply consumes_tryMark
  · intro opening isOpening
    apply consumes_setMembers.bind
    intro w p members
    apply consumes_mark
    intro closing isClosing
    apply consumes_pure
    rcases members with ⟨rfl, rfl⟩ | members
    · exact .negatedNone isBang isOpening isClosing
    · exact .negatedMembers isBang isOpening members isClosing
  · exact consumes_setMember.map fun w p member => .negatedMember isBang member

/-- A level whose reader of bracketed paths reads words that derive from a primary path. -/
structure DerivesGroups (ns : Namespaces) (level : Level) : Prop where
  namespaces : level.namespaces = ns
  group : ∀ t : Token, t.lexeme = .symbol .lparen →
    ConsumesAt t level.pathGroup (Derives ns .primary)

theorem consumes_pathPrimary (h : DerivesGroups ns level) :
    Consumes (pathPrimary level) (Derives ns .primary) := by
  have step : ∀ t : Token, ConsumesAt t (iriStep level.namespaces) (Derives ns .primary) := by
    intro t
    rw [h.namespaces]
    apply (consumes_iriStep.mono _).at
    rintro _ p ⟨t, rfl, isStep⟩
    exact .step isStep
  apply consumes_lexeme
  intro t
  split
  · next isBang =>
    apply ConsumesAt.skip
    · rw [isBang]
      rfl
    · rw [h.namespaces]
      exact consumes_negatedSet isBang
  · next isOpening => exact h.group t isOpening
  · exact step t
  · exact step t
  · split
    · exact step t
    · exact (consumes_fail _).at t

theorem consumes_pathElement (h : DerivesGroups ns level) :
    Consumes (pathElement level) (Derives ns .element) := by
  apply (consumes_pathPrimary h).bind
  intro w p primary
  apply consumes_lexeme
  intro t
  split
  · next times marked =>
    obtain ⟨m, isMark, mod⟩ := isPathMod_of_repetition? marked
    apply ConsumesAt.skip
    · rw [isMark]
      rfl
    · exact consumes_pure (.repeated primary isMark mod)
  · apply (consumes_pure _).at
    rw [List.append_nil]
    exact .primary primary

theorem consumes_pathPart (h : DerivesGroups ns level) :
    Consumes (pathPart level) (Derives ns .elementOrInverse) := by
  apply consumes_tryMark
  · exact fun caret isCaret => (consumes_pathElement h).map fun w p => .inverse isCaret
  · exact (consumes_pathElement h).mono fun w p => .element

theorem consumes_pathSequence (h : DerivesGroups ns level) :
    Consumes (pathSequence level) (Derives ns .sequence) :=
  consumes_joined (consumes_pathPart h) (fun _ _ => .part) fun _ _ _ _ _ left slash right =>
    .followed left slash right

/-- What is read as a path derives from the grammar. -/
theorem consumes_path (h : DerivesGroups ns level) : Consumes (path level) (Derives ns .path) :=
  consumes_joined (consumes_pathSequence h) (fun _ _ => .sequence) fun _ _ _ _ _ left bar right =>
    .alternative left bar right

theorem derivesGroups_ofAllowance (ns : Namespaces) (n : Nat) :
    DerivesGroups ns (Level.ofAllowance ns n) := by
  induction n with
  | zero => exact ⟨rfl, fun t _ => (consumes_fail _).at t⟩
  | succ n ih =>
      constructor
      · rfl
      · intro opening isOpening
        apply ConsumesAt.skip
        · rw [isOpening]
          rfl
        · apply (consumes_path ih).bind
          intro w p inside
          apply consumes_mark
          intro closing isClosing
          exact consumes_pure (.group isOpening inside isClosing)

end Soundness

end Grammar

end SparqlMetrics
