import SparqlMetrics.Proofs.Absolute
import SparqlMetrics.Proofs.Grammar.AnswersQueries
import SparqlMetrics.Proofs.Prologue
import SparqlMetrics.Proofs.Token.Places

/-!
# What a prologue and a whole text answer

A prologue changes the declarations under which the rest is read, so it is followed declaration by
declaration. While no base is known no base declaration has been read, and a name that the prologue
declares is found from there on. Main statements: `Grammar.queryUnit_ok`, `Grammar.queryUnit_error`.
-/
namespace SparqlMetrics

/-- The names that the declarations in front of a query declare, each without the colon that ends
it. -/
def prologueLabels : List Lexeme → List Text
  | .keyword .BASE _ :: .iri _ :: rest => prologueLabels rest
  | .keyword .PREFIX _ :: .prefixedName label localName :: .iri _ :: rest =>
    (Lexeme.prefixedName label localName).text.dropLast :: prologueLabels rest
  | _ => []

namespace Cursor

/-- Whether a cursor lies behind another one with no token between them that opens a base
declaration, unless it is the one right in front of it. -/
def Approaches (c d : Cursor) : Prop := ∃ b, c.Passes b ∧ (d = b ∨ d = b.advance)

variable {c d e : Cursor}

theorem Passes.approaches (h : c.Passes d) : c.Approaches d := ⟨d, h, .inl rfl⟩

theorem Passes.approaches_behind (h : c.Passes d) (h' : d.Approaches e) : c.Approaches e := by
  obtain ⟨b, passes, stands⟩ := h'
  exact ⟨b, h.trans passes, stands⟩

end Cursor

namespace TextClass

variable {T : TextClass} {ns : Namespaces}

theorem keeps_declare (h : T.Keeps ns.strings) {label iri : Text} (hl : T.Holds label)
    (hi : T.Holds iri) : T.Keeps (ns.declare label iri).strings := by
  obtain ⟨entries, base⟩ := keeps_append.mp h
  refine keeps_append.mpr ⟨keeps_flatMap fun entry member => ?_, base⟩
  rcases Namespaces.mem_setEntry member with rfl | member
  · exact keeps_cons hl (keeps_singleton.mpr hi)
  · exact fun s inside => entries s (List.mem_flatMap.mpr ⟨entry, member, inside⟩)

theorem keeps_setBase (h : T.Keeps ns.strings) {iri : Text} (hi : T.Holds iri) :
    T.Keeps ({ ns with base := some iri } : Namespaces).strings :=
  keeps_append.mpr ⟨(keeps_append.mp h).1, keeps_singleton.mpr hi⟩

theorem keeps_noNamespaces : T.Keeps ({} : Namespaces).strings := keeps_nil

end TextClass

namespace Grammar

open SparqlMetrics.Parser TwoRuns

/-- A declared name ends with its colon. -/
theorem text_of_declaredLabel? {here : Lexeme} {label : Text}
    (h : declaredLabel? here = some label) : here.text = label ++ [Byte.colon] := by
  unfold declaredLabel? at h
  split at h
  · rw [← Option.some.inj h]
    rfl
  · split at h
    · next _ localName _ last =>
      have cut := List.dropLast_append_getLast? _ last
      rw [← Option.some.inj h, List.append_assoc, List.cons_append, cut]
      rfl
    · cases h
  · cases h

theorem holds_declaredLabel? {T : TextClass} {here : Lexeme} (keeps : T.Keeps here.strings)
    {label : Text} (h : declaredLabel? here = some label) : T.Holds label := by
  have colon : T.Holds [Byte.colon] := T.constant ":"
  unfold declaredLabel? at h
  split at h
  · exact Option.some.inj h ▸ keeps _ List.mem_cons_self
  · split at h
    · next first localName _ last =>
      rw [← Option.some.inj h]
      have name : T.Holds localName := keeps _ (List.mem_cons_of_mem _ List.mem_cons_self)
      exact T.append (keeps _ List.mem_cons_self) (T.append colon (T.dropColon name last))
    · cases h
  · cases h

/-! ## Runs of declarations -/

/-- What a run of declarations reads behind those known before it. -/
inductive ReadsDeclarations : Namespaces → Cursor → Namespaces → Cursor → Prop
  | done {ns : Namespaces} {c : Cursor} : ReadsDeclarations ns c ns c
  | step {ns ns' ms : Namespaces} {c c' d : Cursor} : ReadsDeclaration ns c (some ns') c' →
      ReadsDeclarations ns' c' ms d → ReadsDeclarations ns c ms d

theorem ReadsPrologue.declarations {ns ms : Namespaces} {c d : Cursor}
    (h : ReadsPrologue ns c ms d) :
    ReadsDeclarations ns c ms d ∧ ReadsDeclaration ms d none d := by
  induction h with
  | stop read => exact ⟨.done, read⟩
  | step read _ ih => exact ⟨.step read ih.1, ih.2⟩

theorem declarations_of_repeatUpTo {e : ParseError} (bound : Nat) {ns : Namespaces} {c : Cursor}
    (h : repeatUpTo declaration? bound ns c = .error e) :
    ∃ ms d, ReadsDeclarations ns c ms d ∧ declaration? ms d = .error e := by
  induction bound generalizing ns c with
  | zero => cases h
  | succ bound ih =>
      cases step : declaration? ns c with
      | error raised =>
          rw [repeatUpTo, bind_eq_of_error step] at h
          exact ⟨ns, c, .done, by rw [step, Except.error.inj h]⟩
      | ok pair =>
          obtain ⟨found, c'⟩ := pair
          rw [repeatUpTo, bind_eq_of_ok step] at h
          cases found with
          | none => cases h
          | some ns' =>
              obtain ⟨ms, d, run, last⟩ := ih h
              exact ⟨ms, d, .step (declaration?_eq_ok.mp step) run, last⟩

variable {T : TextClass} {ns ms : Namespaces} {c d : Cursor}

theorem ReadsDeclarations.suffix (h : ReadsDeclarations ns c ms d) :
    d.ahead <:+ c.ahead ∧ d.last = c.last := by
  induction h with
  | done => exact ⟨List.suffix_refl _, rfl⟩
  | step read _ ih =>
      obtain ⟨suffix, last⟩ := suffix_of_readsDeclaration read
      exact ⟨ih.1.trans suffix, ih.2.trans last⟩

theorem keeps_of_readsDeclaration (h : ReadsDeclaration ns c (some ms) d) (within : c.Within T)
    (keeps : T.Keeps ns.strings) : T.Keeps ms.strings := by
  have behind : c.advance.Within T := within.suffix (List.tail_suffix _) rfl
  have behind₂ : c.advance.advance.Within T := behind.suffix (List.tail_suffix _) rfl
  cases h with
  | base _ here resolved =>
      have reference := here ▸ behind.token
      exact TextClass.keeps_setBase keeps
        (TextClass.holds_resolve? keeps (TextClass.keeps_singleton.mp reference) resolved)
  | «namespace» _ declared here resolved =>
      have reference := here ▸ behind₂.token
      exact TextClass.keeps_declare keeps (holds_declaredLabel? behind.token declared)
        (TextClass.holds_resolve? keeps (TextClass.keeps_singleton.mp reference) resolved)

/-- Declarations that are read hold texts of the class. -/
theorem ReadsDeclarations.keeps (h : ReadsDeclarations ns c ms d) (within : c.Within T)
    (keeps : T.Keeps ns.strings) : T.Keeps ms.strings := by
  induction h with
  | done => exact keeps
  | step read _ ih =>
      obtain ⟨suffix, last⟩ := suffix_of_readsDeclaration read
      exact ih (within.suffix suffix last) (keeps_of_readsDeclaration read within keeps)

theorem passes_namespace {label : Text} (isPrefix : c.token.lexeme.keyword? = some .PREFIX)
    (declared : declaredLabel? c.advance.token.lexeme = some label) :
    c.Passes c.advance.advance := by
  obtain ⟨first, name, spelled⟩ := prefixedName_of_declaredLabel? declared
  exact (Cursor.passes_advance (Lexeme.isPassable_of_keyword? isPrefix (by nofun))).trans
    (Cursor.passes_advance (by rw [spelled]; rfl))

/-- A declaration passes over no source of a blank node. -/
theorem sources_of_readsDeclaration (h : ReadsDeclaration ns c (some ms) d) :
    d.blankSources <:+ c.blankSources := by
  cases h with
  | base isBase here _ =>
      have keyword : c.token.lexeme ≠ .symbol .lbracket := by
        intro same
        rw [same] at isBase
        cases isBase
      exact (Cursor.blankSources_advance (by rw [here]; nofun)).trans
        (Cursor.blankSources_advance keyword)
  | «namespace» isPrefix declared here _ =>
      exact (Cursor.blankSources_advance (by rw [here]; nofun)).trans
        (passes_namespace isPrefix declared).sources

theorem ReadsDeclarations.sources (h : ReadsDeclarations ns c ms d) :
    d.blankSources <:+ c.blankSources := by
  induction h with
  | done => exact List.suffix_rfl
  | step read _ ih => exact ih.trans (sources_of_readsDeclaration read)

theorem exists_of_keyword? {here : Lexeme} {k : Keyword} (h : here.keyword? = some k) :
    ∃ word, here = .keyword k word := by
  cases here with
  | keyword other word => exact ⟨word, Option.some.inj h ▸ rfl⟩
  | _ => cases h

/-- While no base is known no base declaration has been read. -/
theorem ReadsDeclarations.passes (h : ReadsDeclarations ns c ms d) (noBase : ms.base = none) :
    ns.base = none ∧ c.Passes d := by
  induction h with
  | done => exact ⟨noBase, .refl _⟩
  | step read _ ih =>
      obtain ⟨before, passes⟩ := ih noBase
      cases read with
      | base => cases before
      | «namespace» isPrefix declared here _ =>
          refine ⟨before, (passes_namespace isPrefix declared).trans (.trans ?_ passes)⟩
          exact Cursor.passes_advance (by rw [here]; rfl)

/-- A declaration sets the base, or it declares the first name of those that are declared from its
place on. -/
theorem ReadsDeclaration.labels (h : ReadsDeclaration ns c (some ms) d)
    (last : c.last.lexeme.isTerminal = true) :
    (∃ iri, ms = { ns with base := some iri } ∧
      prologueLabels (c.ahead.map (·.lexeme)) = prologueLabels (d.ahead.map (·.lexeme))) ∨
    ∃ label iri, ms = ns.declare label iri ∧
      prologueLabels (c.ahead.map (·.lexeme)) = label :: prologueLabels (d.ahead.map (·.lexeme)) := by
  have full := Cursor.ahead_eq last
  have full₁ := Cursor.ahead_eq (c := c.advance) last
  have full₂ := Cursor.ahead_eq (c := c.advance.advance) last
  cases h with
  | @base _ iri isBase here _ =>
      obtain ⟨word, spelled⟩ := exists_of_keyword? isBase
      refine .inl ⟨iri, rfl, ?_⟩
      rw [full (spelled ▸ rfl), full₁ (here ▸ rfl), List.map_cons, List.map_cons, spelled, here,
        prologueLabels]
  | @«namespace» label _ iri isPrefix declared here _ =>
      obtain ⟨word, spelled⟩ := exists_of_keyword? isPrefix
      obtain ⟨first, name, named⟩ := prefixedName_of_declaredLabel? declared
      have text := text_of_declaredLabel? declared
      rw [named] at text
      refine .inr ⟨label, iri, rfl, ?_⟩
      rw [full (spelled ▸ rfl), full₁ (named ▸ rfl), full₂ (here ▸ rfl), List.map_cons,
        List.map_cons, List.map_cons, spelled, named, here, prologueLabels, text,
        List.dropLast_concat]

/-- A name without a namespace is none of those that were declared. -/
theorem ReadsDeclarations.labels (h : ReadsDeclarations ns c ms d)
    (last : c.last.lexeme.isTerminal = true) {label : Text} (free : ms.find? label = none)
    (behind : label ∉ prologueLabels (d.ahead.map (·.lexeme))) :
    ns.find? label = none ∧ label ∉ prologueLabels (c.ahead.map (·.lexeme)) := by
  induction h with
  | done => exact ⟨free, behind⟩
  | step read _ ih =>
      obtain ⟨before, others⟩ := ih ((suffix_of_readsDeclaration read).2 ▸ last) free behind
      rcases read.labels last with ⟨iri, rfl, same⟩ | ⟨other, iri, rfl, more⟩
      · exact ⟨before, same ▸ others⟩
      · by_cases same : other = label
        · rw [same, Namespaces.find?_declare_self] at before
          cases before
        · rw [Namespaces.find?_declare_of_ne same] at before
          rw [more]
          exact ⟨before, List.not_mem_cons_of_ne_of_not_mem (Ne.symm same) others⟩

/-- A name that is not declared keeps its namespace. -/
theorem ReadsDeclarations.find?_of_not_mem (h : ReadsDeclarations ns c ms d)
    (last : c.last.lexeme.isTerminal = true) {label : Text}
    (free : label ∉ prologueLabels (c.ahead.map (·.lexeme))) : ms.find? label = ns.find? label := by
  induction h with
  | done => rfl
  | step read _ ih =>
      have behind := (suffix_of_readsDeclaration read).2 ▸ last
      rcases read.labels last with ⟨iri, rfl, same⟩ | ⟨other, iri, rfl, more⟩
      · exact ih behind (same ▸ free)
      · rw [more, List.mem_cons, not_or] at free
        rw [ih behind free.2, Namespaces.find?_declare_of_ne (Ne.symm free.1)]

/-! ## Errors in a prologue -/

theorem failure_error (c : Cursor) (cause : Malformed) :
    ∃ raised, (c.error cause).failure = .malformed raised := by
  unfold Cursor.error
  split <;> exact ⟨_, rfl⟩

/-- An error of a declaration: where it is raised, and that it is about no undeclared name. -/
structure StopsDeclaration (S : Scope) (c d : Cursor) (e : ParseError) : Prop where
  raises : S.Raises d e
  approaches : c.Approaches d
  named : ∀ label, e.failure ≠ .undeclaredPrefix label

variable {S : Scope} {e : ParseError}

theorem stops_error {cause : Malformed}
    (h : (∀ fault, c.token.lexeme ≠ .invalid fault) → S.texts.Holds cause.message) :
    StopsDeclaration S c c (c.error cause) := by
  obtain ⟨raised, same⟩ := failure_error c cause
  exact ⟨raises_error h, (Cursor.Passes.refl c).approaches, by simp [same]⟩

theorem stops_declaredIri {missing : Malformed} (hm : S.texts.Holds missing.message)
    (read : declaredIri S.namespaces missing c = .error e) : StopsDeclaration S c c e := by
  cases here : c.token.lexeme with
  | iri reference =>
      cases resolved : S.namespaces.resolve? reference with
      | some iri =>
          rw [declaredIri_eq missing here resolved] at read
          cases read
      | none =>
          obtain ⟨relative, noBase⟩ := Namespaces.resolve?_eq_none resolved
          have same : declaredIri S.namespaces missing c =
              .error ⟨.missingBase reference, c.token.start⟩ := by
            simp [declaredIri, lexeme, resolvedIri, token, here, resolved, bind, StateT.bind,
              Except.bind, throw, throwThe, MonadExceptOf.throw, StateT.lift]
          obtain rfl := Except.error.inj (same.symm.trans read)
          exact ⟨.missingBase here relative noBase, (Cursor.Passes.refl c).approaches,
            fun _ same => by cases same⟩
  | _ =>
      have same : declaredIri S.namespaces missing c = .error (c.error missing) := by
        simp [declaredIri, lexeme, here, fail, bind, StateT.bind, Except.bind]
      exact Except.error.inj (same.symm.trans read) ▸ stops_error fun _ => hm

theorem stops_declaredLabel (read : declaredLabel c = .error e) : StopsDeclaration S c c e := by
  cases declared : declaredLabel? c.token.lexeme with
  | some label =>
      rw [declaredLabel_eq declared] at read
      cases read
  | none =>
      have same : declaredLabel c = .error (c.error (.expected .labelAfterPrefix)) := by
        simp [declaredLabel, lexeme, declared, bind, StateT.bind, Except.bind, expected, fail]
      exact Except.error.inj (same.symm.trans read) ▸
        stops_error fun _ => S.texts.append (S.texts.constant _) (S.texts.constant _)

/-- A declaration is given up behind its keyword or behind its name. -/
theorem stops_declaration? (within : c.Within S.texts)
    (read : declaration? S.namespaces c = .error e) :
    ∃ d, StopsDeclaration S c d e ∧ d.ahead <:+ c.ahead ∧ d.last = c.last := by
  by_cases isBase : c.token.lexeme.keyword? = some .BASE
  · rw [declaration?, bind_eq_of_ok (tryKeyword_eq_true isBase)] at read
    cases first : declaredIri S.namespaces (.expected .iriAfterBase) c.advance with
    | ok pair =>
        rw [if_pos rfl, bind_eq_of_ok first] at read
        cases read
    | error raised =>
        rw [if_pos rfl, bind_eq_of_error first] at read
        obtain rfl := Except.error.inj read
        have stops := stops_declaredIri (S.texts.append (S.texts.constant _) (S.texts.constant _))
          first
        exact ⟨c.advance, ⟨stops.raises, ⟨c, .refl c, .inr rfl⟩, stops.named⟩,
          List.tail_suffix _, rfl⟩
  rw [declaration?, bind_eq_of_ok (tryKeyword_eq_false isBase)] at read
  by_cases isPrefix : c.token.lexeme.keyword? = some .PREFIX
  · have passes : c.Passes c.advance :=
      Cursor.passes_advance (Lexeme.isPassable_of_keyword? isPrefix (by decide))
    simp only [Bool.false_eq_true, if_false, bind_eq_of_ok (tryKeyword_eq_true isPrefix),
      if_true] at read
    cases second : declaredLabel c.advance with
    | error raised =>
        rw [bind_eq_of_error second] at read
        obtain rfl := Except.error.inj read
        have stops := stops_declaredLabel (S := S) second
        exact ⟨c.advance, ⟨stops.raises, passes.approaches, stops.named⟩, List.tail_suffix _, rfl⟩
    | ok pair =>
        obtain ⟨label, c₁⟩ := pair
        rw [bind_eq_of_ok second] at read
        obtain ⟨declared, rfl⟩ := declaredLabel_eq_ok second
        have holds : S.texts.Holds label :=
          holds_declaredLabel? (within.passes passes).token declared
        cases third : declaredIri S.namespaces (.iriAfterLabel label) c.advance.advance with
        | ok pair =>
            rw [bind_eq_of_ok third] at read
            cases read
        | error raised =>
            rw [bind_eq_of_error third] at read
            obtain rfl := Except.error.inj read
            have stops := stops_declaredIri
              (S.texts.append (S.texts.append (S.texts.constant _) holds) (S.texts.constant _)) third
            have passes₂ := passes_namespace isPrefix declared
            exact ⟨c.advance.advance, ⟨stops.raises, passes₂.approaches, stops.named⟩,
              passes₂.suffix, rfl⟩
  · simp only [Bool.false_eq_true, if_false, bind_eq_of_ok (tryKeyword_eq_false isPrefix)] at read
    cases read

/-! ## Whole texts -/

/-- A query is read up to the end of its text. -/
theorem ended_of_queryBehind {unit : QueryUnit} (h : queryBehind ns c = .ok (unit, d)) :
    d.token.lexeme = .endOfInput := by
  obtain ⟨b, _, _, h⟩ := bind_eq_ok.mp h
  obtain ⟨m, _, _, h⟩ := bind_eq_ok.mp h
  obtain ⟨values, c₃, _, h⟩ := bind_eq_ok.mp h
  obtain ⟨_, c₄, ends, h⟩ := bind_eq_ok.mp h
  obtain ⟨stop, _, here, h⟩ := bind_eq_ok.mp h
  obtain ⟨_, rfl⟩ := Prod.mk.inj (Except.ok.inj here)
  obtain ⟨_, rfl⟩ := Prod.mk.inj (Except.ok.inj h)
  obtain ⟨l, _, found, ends⟩ := bind_eq_ok.mp ends
  obtain ⟨rfl, rfl⟩ := Prod.mk.inj (Except.ok.inj found)
  cases last : c₃.token.lexeme with
  | endOfInput =>
      rw [last] at ends
      obtain ⟨_, rfl⟩ := Prod.mk.inj (Except.ok.inj ends)
      exact last
  | _ =>
      rw [last] at ends
      cases ends

/-- What is read of a text: its texts are of the class, its blank nodes come from sources in the
text, and it was read to its end. -/
structure Accepts (T : TextClass) (c : Cursor) (unit : QueryUnit) (d : Cursor) : Prop where
  namespaces : T.Keeps unit.namespaces.strings
  query : unit.query.Everywhere T.checks
  blankNodes : unit.query.Everywhere (sourceChecks c.blankSources)
  suffix : d.ahead <:+ c.ahead
  last : d.last = c.last
  ended : d.token.lexeme = .endOfInput

theorem queryUnit_ok {unit : QueryUnit} (within : c.Within T) (read : queryUnit c = .ok (unit, d)) :
    Accepts T c unit d := by
  obtain ⟨ns, b, first, rest⟩ := bind_eq_ok.mp read
  have run := ((repeatFrom_eq_ok within.terminal).mp first).declarations.1
  have keeps := run.keeps within TextClass.keeps_noNamespaces
  have behind := within.suffix run.suffix.1 run.suffix.2
  let S : Scope := ⟨T, ns, keeps, c.blankSources⟩
  have answer := (answers_queryBehind (S := S)).of_ok ⟨behind, run.sources⟩ trivial rest
  exact ⟨answer.1.1 ▸ keeps, Query.everywhere_mono S.implies_texts _ answer.1.2,
    Query.everywhere_mono S.implies_sources _ answer.1.2, answer.2.suffix.trans run.suffix.1,
    answer.2.last.trans run.suffix.2, ended_of_queryBehind rest⟩

/-- Where an error of a text is raised, and what it means there. -/
structure Blames (T : TextClass) (c : Cursor) (e : ParseError) (S : Scope) (d : Cursor) : Prop where
  texts : S.texts = T
  raises : S.Raises d e
  suffix : d.ahead <:+ c.ahead
  last : d.last = c.last
  approaches : S.namespaces.base = none → c.Approaches d
  undeclared : ∀ label, e.failure = .undeclaredPrefix label →
    label ∉ prologueLabels (c.ahead.map (·.lexeme))

theorem prologueLabels_eq_nil (h : ReadsDeclaration ns c none c) :
    prologueLabels (c.ahead.map (·.lexeme)) = [] := by
  cases h with
  | nothing noBase noPrefix =>
      obtain ⟨ahead, last', count⟩ := c
      cases ahead with
      | nil => rfl
      | cons t rest =>
          have here : t.lexeme.keyword? ≠ some .BASE ∧ t.lexeme.keyword? ≠ some .PREFIX :=
            ⟨noBase, noPrefix⟩
          rw [List.map_cons]
          unfold prologueLabels
          split
          · next spelled =>
            rw [(List.cons.inj spelled).1] at here
            exact absurd rfl here.1
          · next spelled =>
            rw [(List.cons.inj spelled).1] at here
            exact absurd rfl here.2
          · rfl

/-- An error of a text is raised in its prologue or behind it. -/
theorem queryUnit_error (within : c.Within T) (read : queryUnit c = .error e) :
    ∃ S d, Blames T c e S d := by
  cases first : prologue c with
  | error raised =>
      rw [queryUnit_eq, bind_eq_of_error first] at read
      obtain rfl := Except.error.inj read
      obtain ⟨ns, b, run, last⟩ := declarations_of_repeatUpTo _ first
      have keeps := run.keeps within TextClass.keeps_noNamespaces
      have behind := within.suffix run.suffix.1 run.suffix.2
      obtain ⟨d, stops, suffix, same⟩ := stops_declaration? (S := ⟨T, ns, keeps, []⟩) behind last
      exact ⟨_, d, rfl, stops.raises, suffix.trans run.suffix.1, same.trans run.suffix.2,
        fun noBase => (run.passes noBase).2.approaches_behind stops.approaches,
        fun label named => absurd named (stops.named label)⟩
  | ok pair =>
      obtain ⟨ns, b⟩ := pair
      rw [queryUnit_eq, bind_eq_of_ok first] at read
      obtain ⟨run, stop⟩ := ((repeatFrom_eq_ok within.terminal).mp first).declarations
      have keeps := run.keeps within TextClass.keeps_noNamespaces
      have behind := within.suffix run.suffix.1 run.suffix.2
      have answer := answers_queryBehind (S := ⟨T, ns, keeps, c.blankSources⟩) b
        ⟨behind, run.sources⟩ trivial
      rw [read] at answer
      obtain ⟨d, passes, raises⟩ := answer
      refine ⟨_, d, rfl, raises, passes.suffix.trans run.suffix.1, passes.last.trans run.suffix.2,
        fun noBase => ((run.passes noBase).2.trans passes).approaches, fun label named => ?_⟩
      cases raises with
      | undeclaredPrefix here free =>
          obtain rfl := ParseFailure.undeclaredPrefix.inj named
          have nothing := prologueLabels_eq_nil stop
          exact (run.labels within.terminal free (nothing ▸ nofun)).2
      | _ => cases named

end Grammar

end SparqlMetrics
