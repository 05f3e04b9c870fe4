import SparqlMetrics.Grammar.Term
import SparqlMetrics.Proofs.Grammar.Tracks

/-!
# Two runs of the readers of terms

The readers of terms follow each other under declarations that answer alike. Where the first run
finds a reference and the second a prefixed name, both read an IRI.
-/
namespace SparqlMetrics.TwoRuns

open SparqlMetrics.Parser SparqlMetrics.Grammar

variable {S : TwoRuns} {ns ms : Namespaces}

theorem same_term {n m : Node} (h : n.rewrite S.rewriting = m.rewrite S.rewriting)
    (span span' : Span) : Same (Term.rewrite S.rewriting) ⟨n, span⟩ ⟨m, span'⟩ := by
  simp only [Same, Term.rewrite, h, S.span_eq span span']

theorem same_iri {iri iri' : Text} (h : S.rewriting.iri iri = S.rewriting.iri iri')
    (span span' : Span) :
    Same (Term.rewrite S.rewriting) ⟨.iri iri, span⟩ ⟨.iri iri', span'⟩ := by
  have node : (Node.iri iri).rewrite S.rewriting = (Node.iri iri').rewrite S.rewriting :=
    congrArg Node.iri h
  exact same_term node span span'

theorem same_literal {l m : Literal} (h : Same (Literal.rewrite S.rewriting) l m)
    (span span' : Span) :
    Same (Term.rewrite S.rewriting) ⟨.literal l, span⟩ ⟨.literal m, span'⟩ := by
  have node : (Node.literal l).rewrite S.rewriting = (Node.literal m).rewrite S.rewriting :=
    congrArg Node.literal h
  exact same_term node span span'

/-- Two look-ups of which the first may fail where the setting allows it. -/
theorem tracks_lookup {found found' : Option Text} {e e' : ParseError} :
    (∀ iri, found' = some iri →
      (∃ other, found = some other ∧ S.rewriting.iri other = S.rewriting.iri iri) ∨
        found = none ∧ S.escapes e.failure) →
    S.Tracks (Same S.rewriting.iri) (match found with | some iri => pure iri | none => throw e)
      (match found' with | some iri => pure iri | none => throw e') := by
  intro h
  cases found' with
  | none =>
      intro c d _ y d' hy
      cases hy
  | some iri =>
      rcases h iri rfl with ⟨other, rfl, same⟩ | ⟨rfl, escape⟩
      · exact tracks_pure same
      · exact fun c d _ y d' _ => .inr ⟨e, rfl, escape⟩

theorem tracks_resolvedIri (h : S.related ns ms) :
    S.Tracks (Same S.rewriting.iri) (resolvedIri ns) (resolvedIri ms) :=
  tracks_token.bind fun t u alike => by
    obtain ⟨here, start, stop⟩ := t
    obtain ⟨there, start', stop'⟩ := u
    obtain ⟨alike, spelled⟩ := alike
    dsimp only at alike spelled ⊢
    cases alike with
    | same =>
        cases here with
        | iri reference =>
            exact tracks_lookup (S := S) fun _ found => S.resolve h found
        | prefixedName label localName =>
            exact tracks_lookup (S := S) fun _ found => S.expand h spelled found
        | _ => exact tracks_expected _ _
    | iri respelled =>
        exact tracks_lookup (S := S) fun _ found => .inl (S.respell h respelled found)

theorem tracks_iriTerm (h : S.related ns ms) :
    S.Tracks (Same (Term.rewrite S.rewriting)) (iriTerm ns) (iriTerm ms) :=
  tracks_token.bind fun _ _ _ => (tracks_resolvedIri h).bind fun _ _ same =>
    tracks_skip.bind fun _ _ _ => tracks_pure (same_iri same _ _)

theorem tracks_stringTail (h : S.related ns ms) (value : Text) :
    S.Tracks (Same (Literal.rewrite S.rewriting)) (stringTail ns value) (stringTail ms value) :=
  tracks_lexeme.bind fun here there alike => by
    cases alike.1 with
    | same =>
        split
        · exact tracks_skip.bind fun _ _ _ => tracks_pure rfl
        · refine tracks_skip.bind fun _ _ _ => (tracks_resolvedIri h).bind fun _ _ same =>
            tracks_skip.bind fun _ _ _ => tracks_pure ?_
          simp only [Same, Literal.rewrite, Option.map_some]
          rw [same]
        · exact tracks_pure rfl
    | iri => exact tracks_pure rfl

theorem tracks_numberSign : S.Tracks Eq numberSign numberSign :=
  tracks_lexeme.bind fun here there alike => by
    cases alike.1 with
    | same =>
        refine tracks_ite (fun _ => ?_) fun _ => tracks_pure rfl
        refine tracks_followingLexeme.bind fun next next' alikeNext => ?_
        rw [alikeNext.answer (f := Lexeme.isNumber) fun _ _ _ => rfl]
        exact tracks_ite (fun _ => tracks_skip.bind fun _ _ _ => tracks_pure rfl)
          fun _ => tracks_expected _ _
    | iri => exact tracks_pure rfl

theorem tracks_literalTerm (h : S.related ns ms) :
    S.Tracks (Same (Term.rewrite S.rewriting)) (literalTerm ns) (literalTerm ms) :=
  tracks_position.bind fun start start' _ => tracks_numberSign.bind fun sign _ sameSign => by
    subst sameSign
    have finish : ∀ l m : Literal, Same (Literal.rewrite S.rewriting) l m →
        S.Tracks (Same (Term.rewrite S.rewriting))
          (do pure ⟨.literal l, ⟨start, ← position⟩⟩)
          (do pure ⟨.literal m, ⟨start', ← position⟩⟩) :=
      fun l m same => tracks_position.bind fun _ _ _ =>
        tracks_pure (same_literal same _ _)
    refine tracks_lexeme.bind fun here there alike => ?_
    cases alike.1 with
    | same =>
        split
        · exact tracks_skip.bind fun _ _ _ => (tracks_stringTail h _).bind finish
        · exact tracks_skip.bind fun _ _ _ => finish _ _ rfl
        · exact tracks_skip.bind fun _ _ _ => finish _ _ rfl
        · exact tracks_skip.bind fun _ _ _ => finish _ _ rfl
        · exact (tracks_expected (R := Same (Literal.rewrite S.rewriting)) _ _).bind finish
    | iri => exact (tracks_expected (R := Same (Literal.rewrite S.rewriting)) _ _).bind finish

theorem tracks_varOrTerm (h : S.related ns ms) :
    S.Tracks (Same (Term.rewrite S.rewriting)) (varOrTerm ns) (varOrTerm ms) :=
  tracks_token.bind fun t u alike => by
    obtain ⟨here, start, stop⟩ := t
    obtain ⟨there, start', stop'⟩ := u
    obtain ⟨alike, _⟩ := alike
    dsimp only at alike ⊢
    cases alike with
    | same =>
        split
        · exact tracks_skip.bind fun _ _ _ => tracks_pure (same_term rfl _ _)
        · exact tracks_skip.bind fun _ _ _ => tracks_pure (same_term rfl _ _)
        · exact tracks_iriTerm h
        · exact tracks_iriTerm h
        · exact tracks_literalTerm h
        · exact tracks_literalTerm h
        · exact tracks_literalTerm h
        · exact tracks_literalTerm h
        · exact tracks_literalTerm h
        · exact tracks_literalTerm h
        · exact tracks_expected _ _
    | iri => exact tracks_iriTerm h

theorem tracks_varOrIri (h : S.related ns ms) :
    S.Tracks (Same (Term.rewrite S.rewriting)) (varOrIri ns) (varOrIri ms) :=
  tracks_lexeme.bind fun here there alike => by
    cases alike.1 with
    | same =>
        split
        · exact tracks_varOrTerm h
        · exact tracks_iriTerm h
        · exact tracks_iriTerm h
        · exact tracks_expected _ _
    | iri => exact tracks_iriTerm h

theorem tracks_freshBlankNode (start start' : Nat) :
    S.Tracks (Same (Term.rewrite S.rewriting)) (freshBlankNode start) (freshBlankNode start') := by
  intro c d aligned t d' ht
  obtain ⟨rfl, rfl⟩ : ⟨.blank (bracketLabel d.blankCount), ⟨start', start'⟩⟩ = t ∧
      { d with blankCount := d.blankCount + 1 } = d' := by simpa [freshBlankNode] using ht
  refine .inl ⟨_, _, rfl, ?_, ⟨aligned.ahead, aligned.last, ?_, aligned.spelled⟩⟩
  · rw [aligned.blankCount]
    exact same_term rfl _ _
  · simp only [aligned.blankCount]

theorem tracks_dataValue (h : S.related ns ms) :
    S.Tracks (Same (Option.map (Term.rewrite S.rewriting))) (dataValue ns) (dataValue ms) :=
  tracks_lexeme.bind fun here there alike => by
    cases alike.1 with
    | same =>
        split
        · exact tracks_skip.bind fun _ _ _ => tracks_none
        · exact (tracks_iriTerm h).some
        · exact (tracks_iriTerm h).some
        · exact (tracks_literalTerm h).some
        · exact (tracks_literalTerm h).some
        · exact (tracks_literalTerm h).some
        · exact (tracks_literalTerm h).some
        · exact (tracks_literalTerm h).some
        · exact (tracks_literalTerm h).some
        · exact tracks_expected _ _
    | iri => exact (tracks_iriTerm h).some

end SparqlMetrics.TwoRuns
